import Mathlib.Data.Set.Card
import Mathlib.Order.Bounds.Basic
import Uos.Snmp.Instances
import Uos.Snmp.Next
import Uos.Snmp.Walks

/-!
# GETNEXT and the order of names

`next` returns the least instance behind an identifier, unless the index that it makes of the
identifier lies elsewhere among the rows of a table.
-/

namespace Uos
namespace Snmp

open Lexicographic Enumeration

variable {Device : Type} {enterprise : ULong} {v : SnmpVar Device} {tab : List (SnmpVar Device)}
  {id id' index index' : List UShort} {args args' : List ULong} {groups : List IndexPart}

section Order

theorem address_lt_iff {a b c d a' b' c' d' : UShort}
    (bytes : Octet a ∧ Octet b ∧ Octet c ∧ Octet d)
    (bytes' : Octet a' ∧ Octet b' ∧ Octet c' ∧ Octet d') :
    components [a, b, c, d] < components [a', b', c', d'] ↔
      address a b c d < address a' b' c' d' := by
  rw [BitVec.lt_def, address_toNat bytes, address_toNat bytes']
  simp only [Octet] at bytes bytes'
  simp only [components, List.map_cons, List.map_nil, List.cons_lt_cons_iff, List.not_lt_nil,
    and_false, or_false]
  omega

theorem address_inj {a b c d a' b' c' d' : UShort}
    (bytes : Octet a ∧ Octet b ∧ Octet c ∧ Octet d)
    (bytes' : Octet a' ∧ Octet b' ∧ Octet c' ∧ Octet d') :
    components [a, b, c, d] = components [a', b', c', d'] ↔
      address a b c d = address a' b' c' d' := by
  rw [← BitVec.toNat_inj, address_toNat bytes, address_toNat bytes']
  simp only [Octet] at bytes bytes'
  simp only [components, List.map_cons, List.map_nil, List.cons.injEq, and_true]
  omega

theorem Denotes.lt_iff (denotes : Denotes groups index args) :
    ∀ {index' args'}, Denotes groups index' args' →
      (components index < components index' ↔ args < args') := by
  induction denotes with
  | nil =>
    rintro index' args' ⟨⟩
    simp [components]
  | number i rest ih =>
    rintro index' args' ⟨⟩
    rename_i index' args' j rest'
    have wide : i.setWidth 32 < j.setWidth 32 ↔ i.toNat < j.toNat := by
      rw [BitVec.lt_def, BitVec.toNat_setWidth, BitVec.toNat_setWidth]
      omega
    have same : i.setWidth 32 = j.setWidth 32 ↔ i.toNat = j.toNat := by
      rw [← BitVec.toNat_inj, BitVec.toNat_setWidth, BitVec.toNat_setWidth]
      omega
    rw [components, components, List.map_cons, List.map_cons, List.cons_lt_cons_iff,
      List.cons_lt_cons_iff, wide, same]
    exact or_congr_right (and_congr_right fun _ => ih rest')
  | @address groups index args a b c d bytes rest ih =>
    rintro index' args' ⟨⟩
    rename_i index' args' a' b' c' d' bytes' rest'
    have split : components (a :: b :: c :: d :: index) =
        components [a, b, c, d] ++ components index := rfl
    have split' : components (a' :: b' :: c' :: d' :: index') =
        components [a', b', c', d'] ++ components index' := rfl
    have four : (components [a, b, c, d]).length = (components [a', b', c', d']).length := rfl
    rw [split, split', append_lt_append_iff four, List.cons_lt_cons_iff,
      address_lt_iff bytes bytes', address_inj bytes bytes', ih rest']

end Order

section Decoding

/-- The arguments that `next` takes from an index. -/
def loaded : List IndexPart → List UShort → List ULong
  | [], _ => []
  | .number :: parts, index => number index 0 :: loaded parts (index.drop 1)
  | .address :: parts, index => loadReqIdx index 0 :: loaded parts (index.drop 4)

theorem loadReqIdx_drop (offset i : Nat) :
    loadReqIdx (id.drop offset) i = loadReqIdx id (offset + i) := by
  simp only [loadReqIdx, number_drop, List.getD_eq_getElem?_getD, List.getElem?_drop, Nat.add_assoc]

theorem loadReqIdx_octets {a b c d : UShort} (bytes : Octet a ∧ Octet b ∧ Octet c ∧ Octet d)
    (rest : List UShort) : loadReqIdx (a :: b :: c :: d :: rest) 0 = address a b c d := by
  have last : (d.setWidth 8).setWidth 32 = d.setWidth 32 := by
    obtain ⟨-, -, -, small⟩ := bytes
    rw [Octet] at small
    apply BitVec.eq_of_toNat_eq
    simp only [BitVec.toNat_setWidth]
    omega
  rw [← long_octets bytes rest]
  change a.setWidth 32 <<< 24 ||| b.setWidth 32 <<< 16 ||| c.setWidth 32 <<< 8 |||
    (d.setWidth 8).setWidth 32 = _
  rw [last]
  rfl

theorem loaded_of_denotes (denotes : Denotes groups index args) : loaded groups index = args := by
  induction denotes with
  | nil => rfl
  | number i rest ih => rw [loaded, List.drop_one, List.tail_cons, ih, number, List.getD_cons_zero]
  | address bytes rest ih => rw [loaded, loadReqIdx_octets bytes, ← ih]; rfl

variable (i3 : ULong) {type : SnmpType}

/-- `next` takes the arguments from an index that is not too short. -/
theorem loadArgs_eq {vlen : Nat} (whole : vlen + type.nargs ≤ id.length) :
    loadArgs id vlen i3 type = loaded (parts type) (id.drop vlen) := by
  cases type with
  | tab111 =>
    have third : vlen + 2 < id.length := whole
    simp [loadArgs, parts, loaded, number_drop, third]
  | var => rfl
  | _ => simp [loadArgs, parts, loaded, number_drop, loadReqIdx_drop]

theorem length_loadArgs (vlen : Nat) (type : SnmpType) :
    (loadArgs id vlen i3 type).length = (parts type).length := by
  cases type <;> rfl

theorem numberName_setWidth (i : UShort) : numberName (i.setWidth 32) = [i] := by
  rw [numberName]
  congr 1
  apply BitVec.eq_of_toNat_eq
  simp only [BitVec.toNat_setWidth]
  omega

theorem addressName_address {a b c d : UShort} (bytes : Octet a ∧ Octet b ∧ Octet c ∧ Octet d) :
    addressName (address a b c d) = [a, b, c, d] := by
  have value := address_toNat bytes
  simp only [Octet] at bytes
  rw [addressName]
  simp only [List.map_cons, List.map_nil, List.cons.injEq, and_true, ← BitVec.toNat_inj,
    BitVec.toNat_setWidth, BitVec.toNat_ushiftRight, value, Nat.shiftRight_eq_div_pow]
  omega

/-- The components that `next` writes for the parts of an index. -/
def written : List IndexPart → List ULong → List UShort
  | .number :: parts, i :: args => numberName i ++ written parts args
  | .address :: parts, a :: args => addressName a ++ written parts args
  | _, _ => []

theorem Denotes.length_args (denotes : Denotes groups index args) :
    args.length = groups.length := by
  induction denotes with
  | nil => rfl
  | number i rest ih => exact congrArg Nat.succ ih
  | address bytes rest ih => exact congrArg Nat.succ ih

theorem indexName_eq (length : args.length = (parts type).length) :
    indexName type args = written (parts type) args := by
  cases type with
  | var =>
    obtain rfl := List.length_eq_zero_iff.mp length
    rfl
  | tab1 | tab4 =>
    obtain ⟨i1, rfl⟩ := List.length_eq_one_iff.mp length
    simp [indexName, parts, written]
  | tab41 | tab14 =>
    obtain ⟨i1, i2, rfl⟩ := List.length_eq_two.mp length
    simp [indexName, parts, written]
  | tab111 =>
    obtain ⟨i1, i2, i3, rfl⟩ := List.length_eq_three.mp length
    simp [indexName, parts, written]
  | tab4141 =>
    rw [parts] at length
    rcases args with _ | ⟨a1, _ | ⟨i1, _ | ⟨a2, _ | ⟨i2, _ | _⟩⟩⟩⟩ <;> try cases length
    simp [indexName, parts, written]

theorem written_of_denotes (denotes : Denotes groups index args) : written groups args = index := by
  induction denotes with
  | nil => rfl
  | number i rest ih =>
    rw [written, numberName_setWidth, ih]
    rfl
  | address bytes rest ih =>
    rw [written, addressName_address bytes, ih]
    rfl

/-- The index that `next` writes behind the name of a variable. -/
theorem indexName_of_denotes (denotes : Denotes (parts type) index args) :
    indexName type args = index := by
  rw [indexName_eq denotes.length_args, written_of_denotes denotes]

/-- The name of a variable, as `asn_make_oidn` writes it. -/
def nameOf (enterprise : ULong) (v : SnmpVar Device) : List UShort :=
  v.id.map fun byte => if byte = 255 then enterprise.setWidth 16 else byte.setWidth 16

theorem nameOf_eq {name : List UShort} (equal : components name = v.name enterprise) :
    nameOf enterprise v = name := by
  rw [SnmpVar.name] at equal
  rw [nameOf]
  generalize v.id = bytes at equal
  induction bytes generalizing name with
  | nil =>
    rw [List.map_nil, components, List.map_eq_nil_iff] at equal
    rw [equal, List.map_nil]
  | cons byte bytes ih =>
    obtain ⟨c, rest, rfl, first, others⟩ := List.map_eq_cons_iff.mp equal
    rw [List.map_cons, ih others]
    congr 1
    apply BitVec.eq_of_toNat_eq
    rw [component] at first
    split_ifs at first ⊢ <;> rw [BitVec.toNat_setWidth] <;> omega

/-- The name that `next` makes for a row that has one. -/
theorem name_of_instance (named : Instance enterprise v id args) :
    nameOf enterprise v ++ indexName v.type args = id := by
  obtain ⟨name, index, rfl, equal, denotes⟩ := named
  rw [nameOf_eq equal, indexName_of_denotes denotes]

/-- `next` takes the index of a row from its name. -/
theorem loadArgs_of_instance (named : Instance enterprise v id args) :
    loadArgs id v.idlen i3 v.type = args := by
  obtain ⟨name, index, rfl, equal, denotes⟩ := named
  have length : name.length = v.idlen := by
    rw [← @SnmpVar.length_name Device enterprise v, ← equal, components, List.length_map]
  have whole : v.idlen + v.type.nargs ≤ (name ++ index).length := by
    rw [List.length_append, length, denotes.length, sum_size]
  rw [loadArgs_eq i3 whole, ← length, List.drop_left, loaded_of_denotes denotes]

end Decoding

/-- The variables have these rows: the arguments of the instances that exist, and the values that
the functions show for them. -/
structure Contents where
  rows : Nat → List (List ULong)
  shows : Nat → List ULong → Asn → Prop

/-- What the functions of the variables rely on: the device stays as it is, and there is memory. -/
structure Steady (enterprise : ULong) (device : Device) (world : World Device) : Prop where
  enterprise : world.snmp.enterprise = enterprise
  device : world.device = device
  granted : ∀ n, world.pool.grants n = true

/-- A row of a variable that comes behind an index, or any row. -/
def Contents.Behind (contents : Contents) (k : Nat) (low : Option (List ULong))
    (row : List ULong) : Prop :=
  row ∈ contents.rows k ∧ ∀ l ∈ low, l < row

def lowOf (nextflag : Bool) (args : List ULong) : Option (List ULong) :=
  if nextflag = true then some args else none

/-- The answer is the value of the least row of a variable behind an index, or of any row. -/
def Contents.Answers (contents : Contents) (k : Nat) (low : Option (List ULong)) (val : Asn)
    (args : List ULong) : Prop :=
  (val = .nil ∧ ∀ row, ¬contents.Behind k low row) ∨
    (val ≠ .nil ∧ contents.shows k args val ∧ contents.Behind k low args ∧
      ∀ row, contents.Behind k low row → ¬row < args)

/-- The functions of the variables return the values of the rows. -/
structure Contents.Served (contents : Contents) (enterprise : ULong) (device : Device)
    (tab : List (SnmpVar Device)) : Prop where
  /-- A single variable has one row, if it has a value. -/
  var : ∀ (k : Nat) (v : SnmpVar Device), tab[k]? = some v → v.type = .var →
    match v.get with
    | none => contents.rows k = [[]] ∧ contents.shows k [] .null
    | some get => ∀ world, Steady enterprise device world →
        Steady enterprise device (get [] world).2 ∧
          contents.Answers k none (get [] world).1 []
  /-- The rows of a simple table are numbered from 0 on. -/
  simple : ∀ (k : Nat) (v : SnmpVar Device), tab[k]? = some v → v.type = .tab1 → v.next = none →
    ∃ get count, v.get = some get ∧ count ≤ 2 ^ 16 ∧
      contents.rows k = (List.range count).map (fun i => [.ofNat 32 i]) ∧
        ∀ i world, Steady enterprise device world →
          Steady enterprise device (get [i] world).2 ∧
            ((get [i] world).1 = .nil ↔ [i] ∉ contents.rows k) ∧
              ((get [i] world).1 ≠ .nil → contents.shows k [i] (get [i] world).1)
  /-- Other tables without a `next` function have no rows. -/
  empty : ∀ (k : Nat) (v : SnmpVar Device), tab[k]? = some v → v.type ≠ .var → v.type ≠ .tab1 →
    v.next = none → contents.rows k = []
  /-- A `next` function returns the first row, or the one behind an index. -/
  next : ∀ (k : Nat) (v : SnmpVar Device) next, tab[k]? = some v → v.type ≠ .var →
    v.next = some next →
    ∀ nextflag args world, Steady enterprise device world →
      (nextflag = true → args.length = (parts v.type).length) →
        Steady enterprise device (next nextflag args world).2.2 ∧
          contents.Answers k (lowOf nextflag args) (next nextflag args world).1
            (next nextflag args world).2.1

section Rows

variable {contents : Contents} {device : Device} {k vp : Nat} {agent : Agent Device}

variable {low : Option (List ULong)}

theorem simple_answers (served : contents.Served enterprise device tab) (entry : tab[k]? = some v)
    (tab1 : v.type = .tab1) (simple : v.next = none) {world : World Device}
    (steady : Steady enterprise device world) {i : ULong}
    (first : low = none ∧ i = 0 ∨ ∃ j : ULong, low = some [j] ∧ i = j + 1 ∧ j.toNat < 2 ^ 16) :
    ∃ get, v.get = some get ∧ Steady enterprise device (get [i] world).2 ∧
      contents.Answers k low (get [i] world).1 [i] := by
  obtain ⟨get, count, offers, small, rows, serves⟩ := served.simple k v entry tab1 simple
  obtain ⟨steady', none, shows⟩ := serves i world steady
  refine ⟨get, offers, steady', ?_⟩
  have member (j : ULong) : [j] ∈ contents.rows k ↔ j.toNat < count := by
    rw [rows, List.mem_map]
    constructor
    · rintro ⟨n, inside, same⟩
      obtain rfl := List.cons.inj same |>.1
      rw [BitVec.toNat_ofNat]
      exact lt_of_le_of_lt (Nat.mod_le n _) (List.mem_range.mp inside)
    · intro inside
      refine ⟨j.toNat, List.mem_range.mpr inside, ?_⟩
      rw [BitVec.ofNat_toNat, BitVec.setWidth_eq]
  have single : ∀ row ∈ contents.rows k, ∃ j : ULong, row = [j] := by
    intro row here
    rw [rows] at here
    obtain ⟨n, -, rfl⟩ := List.mem_map.mp here
    exact ⟨_, rfl⟩
  have order (j l : ULong) : [j] < [l] ↔ j.toNat < l.toNat := by
    rw [List.cons_lt_cons_iff, BitVec.lt_def]
    simp
  have behind (j : ULong) : contents.Behind k low [j] ↔ j.toNat < count ∧ i.toNat ≤ j.toNat := by
    rw [Contents.Behind, member]
    apply and_congr_right'
    rcases first with ⟨rfl, rfl⟩ | ⟨last, rfl, rfl, bound⟩
    · exact iff_of_true (fun _ impossible => nomatch impossible) (Nat.zero_le _)
    · have one : (1 : ULong).toNat = 1 := rfl
      simp only [Option.mem_def, Option.some.injEq, forall_eq', order, BitVec.toNat_add, one]
      omega
  rcases em ([i] ∈ contents.rows k) with here | absent
  · have found := mt none.mp (not_not.mpr here)
    refine .inr ⟨found, shows found, (behind i).mpr ⟨(member i).mp here, le_rfl⟩, ?_⟩
    rintro row above
    obtain ⟨j, rfl⟩ := single row above.1
    rw [order, not_lt]
    exact ((behind j).mp above).2
  · refine .inl ⟨none.mpr absent, fun row above => absent ?_⟩
    obtain ⟨j, rfl⟩ := single row above.1
    obtain ⟨inside, le⟩ := (behind j).mp above
    exact (member i).mpr (le.trans_lt inside)

theorem nextRow_answers (served : contents.Served enterprise device tab) (entry : tab[k]? = some v)
    (steady : Steady enterprise device agent.toWorld) {nextflag : Bool} {i3 : ULong} {vlen : Nat}
    (flagged : nextflag = true → v.type ≠ .var ∧ args = loadArgs id vlen i3 v.type) :
    Steady enterprise device (nextRow agent vp v nextflag args).2.2.toWorld ∧
      contents.Answers k (lowOf nextflag args) (nextRow agent vp v nextflag args).1
        (nextRow agent vp v nextflag args).2.1 := by
  rw [nextRow]
  split
  · rename_i single
    have unflagged : nextflag = false := Bool.eq_false_iff.mpr fun flag => (flagged flag).1 single
    have var := served.var k v entry single
    rw [unflagged]
    cases offers : v.get with
    | none =>
      rw [offers] at var
      obtain ⟨rows, shows⟩ := var
      rw [readNext, offers]
      refine ⟨steady, .inr ⟨nofun, shows, ⟨rows ▸ List.mem_singleton_self _, nofun⟩, ?_⟩⟩
      exact fun row _ => List.not_lt_nil row
    | some get =>
      rw [offers] at var
      rw [readNext, offers]
      exact var agent.toWorld steady
  · rename_i tab1 simple
    have first : lowOf nextflag args = none ∧
          (if nextflag = true then args.getD 0 0 + 1 else 0) = 0 ∨
        ∃ j : ULong, lowOf nextflag args = some [j] ∧
          (if nextflag = true then args.getD 0 0 + 1 else 0) = j + 1 ∧ j.toNat < 2 ^ 16 := by
      cases nextflag with
      | false => exact .inl ⟨rfl, rfl⟩
      | true =>
        obtain ⟨-, same⟩ := flagged rfl
        rw [tab1] at same
        refine .inr ⟨number id vlen, congrArg some same, ?_, ?_⟩
        · rw [same]
          rfl
        · rw [number, BitVec.toNat_setWidth]
          omega
    obtain ⟨get, offers, steady', answers⟩ := simple_answers served entry tab1 simple steady first
    simp only [readNext, offers]
    exact ⟨steady', answers⟩
  · rename_i none var tab1
    have table : v.type ≠ .var := fun single => var single
    have empty := served.empty k v entry table tab1 none
    refine ⟨steady, .inl ⟨rfl, fun row behind => ?_⟩⟩
    rw [Contents.Behind, empty] at behind
    exact absurd behind.1 (List.not_mem_nil)
  · rename_i next offers var
    have table : v.type ≠ .var := fun single => var single
    have length : nextflag = true → args.length = (parts v.type).length := by
      intro flag
      rw [(flagged flag).2, length_loadArgs]
    exact served.next k v next entry table offers nextflag args agent.toWorld steady length

/-- A row that the loop of `next` may come to, from an entry on. -/
def Contents.Ahead (contents : Contents) (vp : Nat) (low : Option (List ULong)) (k : Nat)
    (row : List ULong) : Prop :=
  vp ≤ k ∧ contents.Behind k (if k = vp then low else none) row

/-- What the loop of `next` finds: the first row that it may come to, with its name and value. -/
inductive Contents.Finds (contents : Contents) (enterprise : ULong) (tab : List (SnmpVar Device))
    (vp : Nat) (low : Option (List ULong)) : SnmpError → Asn → Asn → Prop
  | nothing {name : Asn}
      (none : ∀ k v, tab[k]? = some v → ∀ row, ¬contents.Ahead vp low k row) :
      Finds contents enterprise tab vp low .noSuchName name .nil
  | found {k : Nat} {v : SnmpVar Device} {row : List ULong} {block : Block} {val : Asn}
      (entry : tab[k]? = some v) (ahead : contents.Ahead vp low k row)
      (first : ∀ k' v', tab[k']? = some v' → ∀ row', contents.Ahead vp low k' row' →
        k < k' ∨ k = k' ∧ ¬row' < row)
      (shows : contents.shows k row val) :
      Finds contents enterprise tab vp low .noError
        (.oid block (.ofNat 16 (v.id.length + (indexName v.type row).length))
          (nameOf enterprise v ++ indexName v.type row)) val

theorem makeOidn_granted {pool : MemPool} (granted : ∀ n, pool.grants n = true) (id : List UChar)
    (index : List UShort) :
    makeOidn pool enterprise id index =
      (.oid pool.requests (.ofNat 16 (id.length + index.length))
        (id.map (fun byte => if byte = 255 then enterprise.setWidth 16 else byte.setWidth 16) ++
          index), pool.alloc.2) := by
  have alloc : pool.alloc = (some pool.requests, pool.alloc.2) := by
    rw [MemPool.alloc, if_pos (granted _)]
  rw [makeOidn, alloc]

theorem Steady.alloc {world : World Device} (steady : Steady enterprise device world) :
    Steady enterprise device { world with pool := world.pool.alloc.2 } where
  enterprise := steady.enterprise
  device := steady.device
  granted n := by
    rw [MemPool.alloc]
    split <;> exact steady.granted n

theorem ahead_later (none : ∀ row, ¬contents.Behind vp low row) {row : List ULong} :
    contents.Ahead (vp + 1) .none k row ↔ contents.Ahead vp low k row := by
  rw [Contents.Ahead, Contents.Ahead, ite_self]
  constructor
  · rintro ⟨later, behind⟩
    rw [if_neg (Nat.ne_of_gt later)]
    exact ⟨Nat.le_of_succ_le later, behind⟩
  · rintro ⟨le, behind⟩
    split_ifs at behind with here
    · subst here
      exact absurd behind (none row)
    · exact ⟨Nat.lt_of_le_of_ne le (Ne.symm here), behind⟩

theorem Contents.Finds.later {error : SnmpError} {name val : Asn}
    (none : ∀ row, ¬contents.Behind vp low row)
    (finds : contents.Finds enterprise tab (vp + 1) .none error name val) :
    contents.Finds enterprise tab vp low error name val := by
  cases finds with
  | nothing absent =>
    exact .nothing fun k v entry row ahead => absent k v entry row ((ahead_later none).mpr ahead)
  | found entry ahead first shows =>
    refine .found entry ((ahead_later none).mp ahead) (fun k' v' entry' row' ahead' => ?_) shows
    exact first k' v' entry' row' ((ahead_later none).mpr ahead')

theorem Contents.Behind.ahead {row : List ULong} (behind : contents.Behind vp low row) :
    contents.Ahead vp low vp row :=
  ⟨le_rfl, by rwa [if_pos rfl]⟩

/-- The loop of `next`. -/
theorem nextLoop_finds (served : contents.Served enterprise device tab) :
    ∀ {entries : List (SnmpVar Device)} {vp : Nat} {nextflag : Bool}
      {load : SnmpType → List ULong} {low : Option (List ULong)} {i3 : ULong} {name : Asn}
      {agent : Agent Device}, entries = tab.drop vp → Steady enterprise device agent.toWorld →
      (∀ v, tab[vp]? = some v → lowOf nextflag (load v.type) = low ∧
        (nextflag = true → v.type ≠ .var ∧
          ∃ id vlen i3, load v.type = loadArgs id vlen i3 v.type)) →
      let result := nextLoop entries vp nextflag load i3 name agent
      Steady enterprise device result.2.2.2.toWorld ∧
        contents.Finds enterprise tab vp low result.1 result.2.1 result.2.2.1 := by
  intro entries
  induction entries with
  | nil =>
    intro vp nextflag load low i3 name agent rest steady head
    refine ⟨steady, .nothing fun k v entry row ahead => ?_⟩
    have outside := List.drop_eq_nil_iff.mp rest.symm
    rw [List.getElem?_eq_none (outside.trans ahead.1)] at entry
    cases entry
  | cons v entries ih =>
    intro vp nextflag load low i3 name agent rest steady head
    have entry : tab[vp]? = some v := by
      rw [← List.head?_drop, ← rest, List.head?_cons]
    have rest' : entries = tab.drop (vp + 1) := by
      rw [← List.tail_drop, ← rest, List.tail_cons]
    obtain ⟨low_eq, flagged⟩ := head v entry
    have answers : Steady enterprise device
        (nextRow agent vp v nextflag (load v.type)).2.2.toWorld ∧
          contents.Answers vp low (nextRow agent vp v nextflag (load v.type)).1
            (nextRow agent vp v nextflag (load v.type)).2.1 := by
      rw [← low_eq]
      cases nextflag with
      | false => exact @nextRow_answers _ _ _ _ [] _ _ _ _ _ _ served entry steady _ 0 0 nofun
      | true =>
        obtain ⟨table, id, vlen, i3, loaded⟩ := flagged rfl
        exact nextRow_answers served entry steady fun _ => ⟨table, loaded⟩
    rw [nextLoop]
    generalize nextRow agent vp v nextflag (load v.type) = answer at answers
    obtain ⟨val, args, agent'⟩ := answer
    obtain ⟨steady', answers⟩ := answers
    dsimp only at steady' answers ⊢
    have free : ∀ w, tab[vp + 1]? = some w →
        lowOf false (blankArgs (if v.type = .tab111 then args.getD 2 0 else i3) w.type) = none ∧
          (false = true → w.type ≠ .var ∧ ∃ id vlen i3',
            blankArgs (if v.type = .tab111 then args.getD 2 0 else i3) w.type =
              loadArgs id vlen i3' w.type) :=
      fun w _ => ⟨rfl, nofun⟩
    rcases answers with ⟨rfl, none⟩ | ⟨some, shows, behind, least⟩
    · obtain ⟨steady'', finds⟩ := ih rest' steady' free
      exact ⟨steady'', finds.later none⟩
    · have made := @makeOidn_granted enterprise agent'.pool steady'.granted v.id
        (indexName v.type args)
      rw [steady'.enterprise]
      split
      · exact absurd rfl some
      · rw [made]
        dsimp only
        refine ⟨steady'.alloc, .found entry behind.ahead ?_ shows⟩
        intro k' v' entry' row' ahead'
        rcases Nat.eq_or_lt_of_le ahead'.1 with rfl | later
        · have behind' := ahead'.2
          rw [if_pos rfl] at behind'
          exact .inr ⟨rfl, least row' behind'⟩
        · exact .inl later

end Rows

section Names

variable {contents : Contents} {k k' vp : Nat} {v' : SnmpVar Device} {row row' : List ULong}
  {low : Option (List ULong)}

/-- An identifier names a row that exists. -/
def Contents.Named (contents : Contents) (enterprise : ULong) (tab : List (SnmpVar Device))
    (k : Nat) (row : List ULong) (id : List UShort) : Prop :=
  ∃ v, tab[k]? = some v ∧ row ∈ contents.rows k ∧ Instance enterprise v id row

/-- A table of variables in the order of the names, where no name of a table begins another one, and
every row has a name. -/
structure Contents.Arranged (contents : Contents) (enterprise : ULong)
    (tab : List (SnmpVar Device)) : Prop where
  sorted : Sorted enterprise tab
  separate : tab.Pairwise fun v w => v.nargs ≠ 0 → ¬v.name enterprise <+: w.name enterprise
  named : ∀ k v, tab[k]? = some v → ∀ row ∈ contents.rows k, ∃ id, Instance enterprise v id row

theorem instance_prefix (named : Instance enterprise v id row) :
    v.name enterprise <+: components id := by
  obtain ⟨name, index, rfl, equal, -⟩ := named
  rw [components_append, equal]
  exact List.prefix_append ..

theorem instance_single (named : Instance enterprise v id row) (single : v.nargs = 0) :
    components id = v.name enterprise := by
  obtain ⟨name, index, rfl, equal, denotes⟩ := named
  have none : index = [] := by
    rw [← List.length_eq_zero_iff, denotes.length, sum_size]
    exact single
  rw [none, List.append_nil, equal]

theorem instance_ne (named : Instance enterprise v id row) (table : v.nargs ≠ 0) :
    v.name enterprise < components id := by
  obtain ⟨name, index, rfl, equal, denotes⟩ := named
  have some : index ≠ [] := by
    rintro rfl
    have length := denotes.length
    rw [sum_size] at length
    exact table length.symm
  rw [components_append, equal]
  apply (le_append ..).lt_of_ne
  intro same
  have length := congrArg List.length same
  rw [List.length_append, components, List.length_map] at length
  exact some (List.length_eq_zero_iff.mp (by omega))

theorem instance_lt_iff (named : Instance enterprise v id row)
    (named' : Instance enterprise v id' row') : components id < components id' ↔ row < row' := by
  obtain ⟨name, index, rfl, equal, denotes⟩ := named
  obtain ⟨name', index', rfl, equal', denotes'⟩ := named'
  rw [components_append, components_append, equal, equal', append_lt_append_left_iff,
    denotes.lt_iff denotes']

theorem separate_of_lt (arranged : contents.Arranged enterprise tab) (less : k < k')
    (entry : tab[k]? = some v) (entry' : tab[k']? = some v') (table : v.nargs ≠ 0) :
    ¬v.name enterprise <+: v'.name enterprise := by
  obtain ⟨inside, rfl⟩ := List.getElem?_eq_some_iff.mp entry
  obtain ⟨inside', rfl⟩ := List.getElem?_eq_some_iff.mp entry'
  exact List.pairwise_iff_getElem.mp arranged.separate k k' inside inside' less table

theorem instance_lt_name (arranged : contents.Arranged enterprise tab) (less : k < k')
    (entry : tab[k]? = some v) (entry' : tab[k']? = some v')
    (named : Instance enterprise v id row) : components id < v'.name enterprise := by
  have order := sorted_lt arranged.sorted less entry entry'
  rcases eq_or_ne v.nargs 0 with single | table
  · rw [instance_single named single]
    exact order
  · obtain ⟨rest, whole⟩ := instance_prefix named
    have apart := separate_of_lt arranged less entry entry' table
    have beyond := append_lt_append_of_apart order apart rest []
    rwa [List.append_nil, whole] at beyond

theorem named_lt (arranged : contents.Arranged enterprise tab) (less : k < k')
    (named : contents.Named enterprise tab k row id)
    (named' : contents.Named enterprise tab k' row' id') : components id < components id' := by
  obtain ⟨v, entry, -, named⟩ := named
  obtain ⟨v', entry', -, named'⟩ := named'
  exact (instance_lt_name arranged less entry entry' named).trans_le (name_le named')

theorem named_lt_iff (named : contents.Named enterprise tab k row id)
    (named' : contents.Named enterprise tab k row' id') :
    components id < components id' ↔ row < row' := by
  obtain ⟨v, entry, -, named⟩ := named
  obtain ⟨v', entry', -, named'⟩ := named'
  cases entry.symm.trans entry'
  exact instance_lt_iff named named'

theorem named_eq (named : contents.Named enterprise tab k row id)
    (named' : contents.Named enterprise tab k row' id') (same : id = id') : row = row' := by
  obtain ⟨v, entry, -, named⟩ := named
  obtain ⟨v', entry', -, named'⟩ := named'
  cases entry.symm.trans entry'
  rw [← loadArgs_of_instance 0 named, same, loadArgs_of_instance 0 named']

/-- The rows that the loop of `next` may come to are all those from some name on. -/
theorem ahead_upward (arranged : contents.Arranged enterprise tab)
    (named : contents.Named enterprise tab k row id)
    (named' : contents.Named enterprise tab k' row' id') (le : components id ≤ components id')
    (ahead : contents.Ahead vp low k row) : contents.Ahead vp low k' row' := by
  obtain ⟨from_vp, -, behind⟩ := ahead
  have member : row' ∈ contents.rows k' := by
    obtain ⟨-, -, member, -⟩ := named'
    exact member
  rcases Nat.lt_trichotomy k k' with less | rfl | greater
  · refine ⟨from_vp.trans less.le, member, ?_⟩
    rw [if_neg (Nat.ne_of_gt (from_vp.trans_lt less))]
    exact nofun
  · refine ⟨from_vp, member, fun l here => ?_⟩
    rcases le.eq_or_lt with same | less
    · rw [named_eq named named' (components_injective same)] at behind
      exact behind l here
    · exact List.lt_trans (behind l here) ((named_lt_iff named named').mp less)
  · exact absurd (named_lt arranged greater named' named) (not_lt.mpr le)

end Names

section Next

variable {contents : Contents} {k k' vp : Nat} {v' : SnmpVar Device} {row row' : List ULong}
  {low : Option (List ULong)} {error : SnmpError} {name val : Asn} {i3 : ULong}

/-- The answer to GETNEXT: the least name of a row behind an identifier and its value, or an error
if there is none. -/
inductive Contents.Successor (contents : Contents) (enterprise : ULong)
    (tab : List (SnmpVar Device)) (id : List UShort) : SnmpError → Asn → Asn → Prop
  | nothing {name : Asn}
      (last : ∀ k row id', contents.Named enterprise tab k row id' →
        ¬components id < components id') :
      Successor contents enterprise tab id .noSuchName name .nil
  | least {k : Nat} {row : List ULong} {id' : List UShort} {block : Block} {val : Asn}
      (named : contents.Named enterprise tab k row id') (behind : components id < components id')
      (first : ∀ k₁ row₁ id₁, contents.Named enterprise tab k₁ row₁ id₁ →
        components id < components id₁ → components id' ≤ components id₁)
      (shows : contents.shows k row val) :
      Successor contents enterprise tab id .noError (.oid block (.ofNat 16 id'.length) id') val

theorem Contents.Successor.first {block : Block} {len : UShort}
    (successor : contents.Successor enterprise tab id .noError (.oid block len id') val) :
    (∃ k row, contents.Named enterprise tab k row id' ∧ contents.shows k row val) ∧
      components id < components id' ∧
        ∀ k₁ row₁ id₁, contents.Named enterprise tab k₁ row₁ id₁ →
          components id < components id₁ → components id' ≤ components id₁ := by
  generalize whole : Asn.oid block len id' = name at successor
  cases successor with
  | least named behind first shows =>
    injection whole with _ _ same
    subst same
    exact ⟨⟨_, _, named, shows⟩, behind, first⟩

theorem Contents.Successor.last (successor : contents.Successor enterprise tab id error name val)
    (ended : error = .noSuchName) (named : contents.Named enterprise tab k row id') :
    ¬components id < components id' := by
  cases successor with
  | nothing last => exact last k row id' named
  | least => exact absurd ended.symm noSuchName_ne

/-- The rows that the loop of `next` may come to are those with a name behind an identifier. -/
def Contents.Divides (contents : Contents) (enterprise : ULong) (tab : List (SnmpVar Device))
    (id : List UShort) (vp : Nat) (low : Option (List ULong)) : Prop :=
  ∀ k row id', contents.Named enterprise tab k row id' →
    (contents.Ahead vp low k row ↔ components id < components id')

theorem found_le (arranged : contents.Arranged enterprise tab)
    (named : contents.Named enterprise tab k row id)
    (named' : contents.Named enterprise tab k' row' id') (first : k < k' ∨ k = k' ∧ ¬row' < row) :
    components id ≤ components id' := by
  rcases first with less | ⟨rfl, least⟩
  · exact (named_lt arranged less named named').le
  · exact not_lt.mp (mt (named_lt_iff named' named).mp least)

theorem successor_iff_divides (arranged : contents.Arranged enterprise tab)
    (finds : contents.Finds enterprise tab vp low error name val) :
    contents.Successor enterprise tab id error name val ↔
      contents.Divides enterprise tab id vp low := by
  cases finds with
  | nothing none =>
    have nowhere : ∀ k row id', contents.Named enterprise tab k row id' →
        ¬contents.Ahead vp low k row :=
      fun k row id' ⟨v, entry, _, _⟩ => none k v entry row
    constructor
    · rintro ⟨last⟩ k row id' named
      exact iff_of_false (nowhere k row id' named) (last k row id' named)
    · refine fun divides => .nothing fun k row id' named behind => ?_
      exact nowhere k row id' named ((divides k row id' named).mpr behind)
  | @found k v row block val entry ahead first shows =>
    have member : row ∈ contents.rows k := ahead.2.1
    obtain ⟨id', own⟩ := arranged.named k v entry row member
    have named : contents.Named enterprise tab k row id' := ⟨v, entry, member, own⟩
    have least : ∀ k₁ row₁ id₁, contents.Named enterprise tab k₁ row₁ id₁ →
        contents.Ahead vp low k₁ row₁ → components id' ≤ components id₁ := by
      intro k₁ row₁ id₁ named₁ ahead₁
      have ⟨v₁, entry₁, _, _⟩ := named₁
      exact found_le arranged named named₁ (first k₁ v₁ entry₁ row₁ ahead₁)
    have length : v.id.length + (indexName v.type row).length = id'.length := by
      rw [← name_of_instance own, List.length_append, nameOf, List.length_map]
    rw [name_of_instance own, length]
    constructor
    · intro successor k₁ row₁ id₁ named₁
      obtain ⟨-, behind, first'⟩ := successor.first
      constructor
      · exact fun ahead₁ => behind.trans_le (least k₁ row₁ id₁ named₁ ahead₁)
      · exact fun behind₁ =>
          ahead_upward arranged named named₁ (first' k₁ row₁ id₁ named₁ behind₁) ahead
    · intro divides
      refine .least named ((divides k row id' named).mp ahead) ?_ shows
      intro k₁ row₁ id₁ named₁ behind₁
      exact least k₁ row₁ id₁ named₁ ((divides k₁ row₁ id₁ named₁).mpr behind₁)

/-- The index that `next` takes from an identifier lies at the place of the identifier among the
rows of a table. -/
def Contents.Agrees (contents : Contents) (enterprise : ULong) (tab : List (SnmpVar Device))
    (id : List UShort) (i3 : ULong) : Prop :=
  ∀ k v, tab[k]? = some v → v.nargs ≠ 0 → v.name enterprise <+: components id →
    v.idlen < id.length → ∀ row id', contents.Named enterprise tab k row id' →
      (loadArgs id v.idlen i3 v.type < row ↔ components id < components id')

section Last

variable (arranged : contents.Arranged enterprise tab)
  (last : Last enterprise tab (components id) k v)
include arranged last

theorem before_last (less : k' < k) (named : contents.Named enterprise tab k' row' id') :
    ¬components id < components id' := by
  obtain ⟨v', entry', -, named⟩ := named
  exact ((instance_lt_name arranged less entry' last.entry named).trans_le last.le).not_gt

omit arranged in
theorem behind_last (greater : k < k') (named : contents.Named enterprise tab k' row' id') :
    components id < components id' := by
  obtain ⟨v', entry', -, named⟩ := named
  exact (last.behind k' v' greater entry').trans_le (name_le named)

/-- A search that begins at the last entry in front of an identifier, or behind this entry, depends
on the rows of this entry only. -/
theorem divides_iff (start : vp = k ∨ vp = k + 1 ∧ low = none) :
    contents.Divides enterprise tab id vp low ↔
      ∀ row id', contents.Named enterprise tab k row id' →
        (contents.Ahead vp low k row ↔ components id < components id') := by
  refine ⟨fun divides => divides k, fun here k' row' id' named => ?_⟩
  rcases Nat.lt_trichotomy k' k with less | rfl | greater
  · refine iff_of_false (fun ahead => ?_) (before_last arranged last less named)
    have le := ahead.1
    omega
  · exact here row' id' named
  · refine iff_of_true ⟨by omega, ?_⟩ (behind_last last greater named)
    have free : (if k' = vp then low else none) = none := by
      split_ifs with same
      · exact (start.resolve_left (by omega)).2
      · rfl
    obtain ⟨v', entry', member, -⟩ := named
    exact ⟨member, by rw [free]; exact nofun⟩

theorem prefix_last (entry' : tab[k']? = some v') (table : v'.nargs ≠ 0)
    (front : v'.name enterprise <+: components id) : k' = k ∧ v' = v := by
  rcases Nat.lt_trichotomy k' k with less | rfl | greater
  · have order := sorted_lt arranged.sorted less entry' last.entry
    have apart := separate_of_lt arranged less entry' last.entry table
    exact absurd (prefix_of_le_of_le front order.le last.le) apart
  · exact ⟨rfl, Option.some.inj (entry'.symm.trans last.entry)⟩
  · exact absurd (le_of_front front) (last.behind k' v' greater entry').not_ge

theorem agrees_iff (i3 : ULong) :
    contents.Agrees enterprise tab id i3 ↔
      (v.nargs ≠ 0 → v.name enterprise <+: components id → v.idlen < id.length →
        ∀ row id', contents.Named enterprise tab k row id' →
          (loadArgs id v.idlen i3 v.type < row ↔ components id < components id')) := by
  refine ⟨fun agrees => agrees k v last.entry, fun here k' v' entry' table front => ?_⟩
  obtain ⟨rfl, rfl⟩ := prefix_last arranged last entry' table front
  exact here table front

end Last

/-- The first comparison in `next`. -/
theorem compare_front (le : v.name enterprise ≤ components id) :
    compare enterprise (id.take (min v.idlen id.length)) (v.id.take (min v.idlen id.length)) = .eq ↔
      v.name enterprise <+: components id := by
  have length : (components id).length = id.length := List.length_map _
  have name_take (n : Nat) :
      (v.id.take n).map (component enterprise) = (v.name enterprise).take n :=
    List.map_take
  rw [compare_eq_iff, name_take, components, List.map_take, ← components]
  rcases Nat.le_total v.idlen id.length with short | long
  · have whole : (v.name enterprise).take v.idlen = v.name enterprise := by
      rw [← @SnmpVar.length_name Device enterprise v, List.take_length]
    rw [min_eq_left short, whole, List.prefix_iff_eq_take, v.length_name]
    exact eq_comm
  · have whole : (components id).take id.length = components id := by
      rw [← length, List.take_length]
    rw [min_eq_right long, whole]
    constructor
    · intro same
      have front : components id <+: v.name enterprise := same ▸ List.take_prefix ..
      exact le.antisymm (le_of_front front) ▸ List.prefix_rfl
    · intro front
      have same := front.eq_of_length_le (by rw [length, v.length_name]; exact long)
      rw [← length, same, List.take_length]

/-- The second comparison in `next`. -/
theorem compare_behind (front : v.name enterprise <+: components id) :
    compare enterprise (id.take v.idlen) v.id = .eq := by
  rw [compare_eq_iff, components, List.map_take, ← components]
  have take := List.prefix_iff_eq_take.mp front
  rw [v.length_name] at take
  exact take.symm

/-- The rows of an entry have names in front of an identifier that its name does not begin, or that
is behind its only name. -/
theorem entry_passed (last : Last enterprise tab (components id) k v)
    (passed : v.nargs = 0 ∨ ¬v.name enterprise <+: components id)
    (named : contents.Named enterprise tab k row id') : ¬components id < components id' := by
  obtain ⟨w, entry, -, named⟩ := named
  cases last.entry.symm.trans entry
  rcases passed with single | apart
  · rw [instance_single named single]
    exact last.le.not_gt
  · have less : v.name enterprise < components id :=
      last.le.lt_of_ne fun same => apart (same ▸ List.prefix_rfl)
    obtain ⟨rest, whole⟩ := instance_prefix named
    have beyond := append_lt_append_of_apart less apart rest []
    rw [List.append_nil, whole] at beyond
    exact beyond.not_gt

/-- Where `next` begins, and that this is the right place if the index agrees. -/
theorem next_finds {tab : SnmpTable Device} {device : Device} {agent : Agent Device}
    (arranged : contents.Arranged enterprise tab.1)
    (served : contents.Served enterprise device tab.1)
    (steady : Steady enterprise device agent.toWorld) :
    ∃ vp low, (contents.Divides enterprise tab.1 id vp low ↔
        contents.Agrees enterprise tab.1 id i3) ∧
      let result := next tab agent id name i3
      Steady enterprise device result.2.2.2.toWorld ∧
        contents.Finds enterprise tab.1 vp low result.1 result.2.1 result.2.2.1 := by
  have plain (vp : Nat) := @nextLoop_finds _ _ _ _ device served (tab.1.drop vp) vp false
    (blankArgs i3) none i3 name agent rfl steady fun _ _ => ⟨rfl, nofun⟩
  have spec := @found_findVar _ enterprise id tab arranged.sorted
  rw [next, steady.enterprise]
  cases result : findVar enterprise tab id with
  | none =>
    rw [result] at spec
    cases spec with
    | nothing behind =>
      refine ⟨0, none, iff_of_true (fun k row id' named => ?_) ?_, plain 0⟩
      · obtain ⟨v, entry, member, named⟩ := named
        refine iff_of_true ⟨Nat.zero_le k, member, by rw [ite_self]; exact nofun⟩ ?_
        exact (behind k v entry).trans_le (name_le named)
      · intro k v entry table front
        exact absurd (le_of_front front) (behind k v entry).not_ge
  | some answer =>
    obtain ⟨k, exact⟩ := answer
    rw [result] at spec
    obtain ⟨v, last, -⟩ := found_last arranged.sorted spec
    simp only [last.entry]
    have start := @compare_front _ _ v id last.le
    have here (vp : Nat) (low : Option (List ULong)) (start : vp = k ∨ vp = k + 1 ∧ low = none) :=
      divides_iff arranged last start
    have agrees := agrees_iff arranged last i3
    split_ifs with passed inside
    · rw [ne_eq, start] at passed
      refine ⟨k + 1, none, iff_of_true ((here _ _ (.inr ⟨rfl, rfl⟩)).mpr ?_) (agrees.mpr ?_),
        plain (k + 1)⟩
      · intro row id' named
        refine iff_of_false (fun ahead => ?_) (entry_passed last passed named)
        exact absurd ahead.1 (Nat.not_succ_le_self k)
      · exact fun table front => absurd passed (not_or.mpr ⟨table, not_not.mpr front⟩)
    · rw [ne_eq, start, not_or, not_not] at passed
      refine ⟨k, some (loadArgs id v.idlen i3 v.type), ?_, ?_⟩
      · rw [here _ _ (.inl rfl), agrees]
        have ahead (row : List ULong) (id' : List UShort)
            (named : contents.Named enterprise tab.1 k row id') :
            contents.Ahead k (some (loadArgs id v.idlen i3 v.type)) k row ↔
              loadArgs id v.idlen i3 v.type < row := by
          obtain ⟨-, -, member, -⟩ := named
          rw [Contents.Ahead, if_pos rfl, Contents.Behind]
          simp [member]
        constructor
        · exact fun divides _ _ _ row id' named =>
            (ahead row id' named).symm.trans (divides row id' named)
        · exact fun agrees row id' named => (ahead row id' named).trans
            (agrees passed.1 passed.2 inside.1 row id' named)
      · refine nextLoop_finds served rfl steady fun w entry => ?_
        cases last.entry.symm.trans entry
        exact ⟨rfl, fun _ => ⟨mt nargs_eq_zero.mpr passed.1, id, v.idlen, i3, rfl⟩⟩
    · rw [ne_eq, start, not_or, not_not] at passed
      have long : ¬v.idlen < id.length := fun long => inside ⟨long, compare_behind passed.2⟩
      have whole : v.name enterprise = components id := by
        apply passed.2.eq_of_length_le
        rw [components, List.length_map, v.length_name]
        exact not_lt.mp long
      refine ⟨k, none, iff_of_true ((here _ _ (.inl rfl)).mpr ?_) (agrees.mpr ?_), plain k⟩
      · intro row id' named
        obtain ⟨w, entry, member, named⟩ := named
        cases last.entry.symm.trans entry
        rw [← whole]
        exact iff_of_true ⟨le_rfl, member, by rw [ite_self]; exact nofun⟩
          (instance_ne named passed.1)
      · exact fun _ _ inside => absurd inside long

/-- An answer to GETNEXT is the successor of the identifier if and only if the index that `next`
takes from the identifier lies at its place. -/
theorem next_successor_iff {tab : SnmpTable Device} {device : Device} {agent : Agent Device}
    (arranged : contents.Arranged enterprise tab.1)
    (served : contents.Served enterprise device tab.1)
    (steady : Steady enterprise device agent.toWorld) :
    contents.Successor enterprise tab.1 id (next tab agent id name i3).1
        (next tab agent id name i3).2.1 (next tab agent id name i3).2.2.1 ↔
      contents.Agrees enterprise tab.1 id i3 := by
  obtain ⟨vp, low, right, -, finds⟩ := @next_finds _ _ id _ name i3 tab device agent arranged served
    steady
  rw [successor_iff_divides arranged finds, right]

end Next

section Walk

variable {contents : Contents} {tab : SnmpTable Device} {device : Device} {k : Nat}
  {row : List ULong} {error error' : SnmpError} {name name' val val' : Asn} {i3 : ULong}
  {visited : List (List UShort × Asn)}

/-- The requests of a manager that asks for what is behind the name in each answer, from an answer
on: the names and values that it gets, and the last answer.  Between two requests the agent does
whatever it wants that leaves the device as it is. -/
inductive NextWalk (tab : SnmpTable Device) (enterprise : ULong) (device : Device) :
    SnmpError × Asn × Asn → List (List UShort × Asn) → SnmpError × Asn × Asn → Prop
  | stays {answer : SnmpError × Asn × Asn} : NextWalk tab enterprise device answer [] answer
  | visits {block : Block} {len : UShort} {id : List UShort} {val name : Asn} {i3 : ULong}
      {agent after : Agent Device} {answer answer' final : SnmpError × Asn × Asn}
      {visited : List (List UShort × Asn)}
      (found : answer = (.noError, .oid block len id, val))
      (steady : Steady enterprise device agent.toWorld)
      (asked : next tab agent id name i3 = (answer'.1, answer'.2.1, answer'.2.2, after))
      (rest : NextWalk tab enterprise device answer' visited final) :
      NextWalk tab enterprise device answer ((id, val) :: visited) final

/-- A walk visits rows behind an identifier, each once and in the order of their names, and with
their values; it leaves out none before it ends, and it ends. -/
structure Contents.Toured (contents : Contents) (enterprise : ULong)
    (tab : List (SnmpVar Device)) (id : List UShort) (visited : List (List UShort × Asn))
    (final : SnmpError × Asn × Asn) : Prop where
  increasing : (id :: visited.map Prod.fst).Pairwise fun id id' => components id < components id'
  genuine : ∀ visit ∈ visited, ∃ k row, contents.Named enterprise tab k row visit.1 ∧
    contents.shows k row visit.2
  last : contents.Successor enterprise tab ((visited.map Prod.fst).getLastD id) final.1 final.2.1
    final.2.2
  whole : final.1 = .noSuchName → ∀ k row id', contents.Named enterprise tab k row id' →
    components id < components id' → id' ∈ visited.map Prod.fst
  bounded : visited.length ≤ (tab.zipIdx.map fun entry => (contents.rows entry.2).length).sum

def Contents.names (contents : Contents) (enterprise : ULong) (tab : List (SnmpVar Device)) :
    List (List UShort) :=
  tab.zipIdx.flatMap fun entry =>
    (contents.rows entry.2).map fun row => nameOf enterprise entry.1 ++ indexName entry.1.type row

theorem mem_names {tab : List (SnmpVar Device)} (named : contents.Named enterprise tab k row id) :
    id ∈ contents.names enterprise tab := by
  obtain ⟨v, entry, member, own⟩ := named
  rw [Contents.names, List.mem_flatMap]
  refine ⟨(v, k), List.mem_zipIdx_iff_getElem?.mpr entry, ?_⟩
  exact List.mem_map.mpr ⟨row, member, name_of_instance own⟩

theorem length_names {tab : List (SnmpVar Device)} {names : List (List UShort)}
    (increasing : names.Pairwise fun id id' => components id < components id')
    (genuine : ∀ id ∈ names, ∃ k row, contents.Named enterprise tab k row id) :
    names.length ≤ (tab.zipIdx.map fun entry => (contents.rows entry.2).length).sum := by
  have distinct : names.Nodup := by
    refine increasing.imp fun less same => ?_
    rw [same] at less
    exact lt_irrefl _ less
  have inside : names ⊆ contents.names enterprise tab := by
    intro id member
    obtain ⟨k, row, named⟩ := genuine id member
    exact mem_names named
  have size : (contents.names enterprise tab).length =
      (tab.zipIdx.map fun entry => (contents.rows entry.2).length).sum := by
    rw [Contents.names, List.length_flatMap]
    simp only [List.length_map]
  exact size ▸ (List.subperm_of_subset distinct inside).length_le

/-- `next` takes the index of a row from its name, whatever the name is asked for. -/
theorem agrees_named (arranged : contents.Arranged enterprise tab.1)
    (named : contents.Named enterprise tab.1 k row id) (i3 : ULong) :
    contents.Agrees enterprise tab.1 id i3 := by
  have located := named
  obtain ⟨v, entry, member, own⟩ := named
  intro k' v' entry' table front inside row' id' named'
  have same : k' = k ∧ v' = v := by
    rcases Nat.lt_trichotomy k' k with less | rfl | greater
    · have order := sorted_lt arranged.sorted less entry' entry
      have apart := separate_of_lt arranged less entry' entry table
      exact absurd (prefix_of_le_of_le front order.le (name_le own)) apart
    · exact ⟨rfl, Option.some.inj (entry'.symm.trans entry)⟩
    · exact absurd (le_of_front front)
        (instance_lt_name arranged greater entry entry' own).not_ge
  obtain ⟨rfl, rfl⟩ := same
  rw [loadArgs_of_instance i3 own, named_lt_iff located named']

theorem toured_of_walk (arranged : contents.Arranged enterprise tab.1)
    (served : contents.Served enterprise device tab.1) {answer final : SnmpError × Asn × Asn}
    (walk : NextWalk tab enterprise device answer visited final) :
    ∀ {id}, contents.Successor enterprise tab.1 id answer.1 answer.2.1 answer.2.2 →
      contents.Toured enterprise tab.1 id visited final := by
  induction walk with
  | stays =>
    intro id successor
    refine ⟨List.pairwise_singleton _ _, nofun, successor, fun ended => ?_, Nat.zero_le _⟩
    exact fun k row id' named behind => absurd behind (successor.last ended named)
  | @visits block len id' val name i3 agent after answer answer' final visited found steady asked
      rest ih =>
      intro id successor
      subst found
      obtain ⟨⟨k, row, named, shows⟩, behind, first⟩ := successor.first
      have following := (@next_successor_iff _ _ id' _ name i3 _ _ _ arranged served steady).mpr
        (agrees_named arranged named i3)
      rw [asked] at following
      have tour := ih following
      have increasing : (id :: id' :: visited.map Prod.fst).Pairwise
          fun id id' => components id < components id' := by
        refine .cons (fun id'' member => ?_) tour.increasing
        rcases List.mem_cons.mp member with rfl | later
        · exact behind
        · exact behind.trans (List.rel_of_pairwise_cons tour.increasing later)
      have genuine : ∀ visit ∈ (id', val) :: visited, ∃ k row,
          contents.Named enterprise tab.1 k row visit.1 ∧ contents.shows k row visit.2 :=
        List.forall_mem_cons.mpr ⟨⟨k, row, named, shows⟩, tour.genuine⟩
      refine ⟨increasing, genuine, ?_, fun ended k₁ row₁ id₁ named₁ behind₁ => ?_, ?_⟩
      · rw [List.map_cons, List.getLastD_cons]
        exact tour.last
      · rcases (first k₁ row₁ id₁ named₁ behind₁).eq_or_lt with same | later
        · rw [components_injective same]
          exact List.mem_cons_self
        · exact .tail _ (tour.whole ended k₁ row₁ id₁ named₁ later)
      · have bounded := @length_names _ enterprise contents tab.1 (((id', val) :: visited).map
          Prod.fst) increasing.of_cons fun id'' member => by
            obtain ⟨visit, here, rfl⟩ := List.mem_map.mp member
            obtain ⟨k, row, named, -⟩ := genuine visit here
            exact ⟨k, row, named⟩
        rwa [List.length_map] at bounded

/-- GETNEXT returns the successor of an identifier, and walks from there on visit all rows in the
order of their names, if and only if the index that `next` takes from the identifier lies at its
place. -/
theorem next_toured_iff {agent : Agent Device} (arranged : contents.Arranged enterprise tab.1)
    (served : contents.Served enterprise device tab.1)
    (steady : Steady enterprise device agent.toWorld) :
    (contents.Successor enterprise tab.1 id (next tab agent id name i3).1
        (next tab agent id name i3).2.1 (next tab agent id name i3).2.2.1 ∧
      ∀ visited final, NextWalk tab enterprise device ((next tab agent id name i3).1,
          (next tab agent id name i3).2.1, (next tab agent id name i3).2.2.1) visited final →
        contents.Toured enterprise tab.1 id visited final) ↔
      contents.Agrees enterprise tab.1 id i3 := by
  rw [← @next_successor_iff _ _ id _ name i3 _ _ _ arranged served steady]
  constructor
  · exact fun both => both.1
  · exact fun successor =>
      ⟨successor, fun visited final walk => toured_of_walk arranged served walk successor⟩

end Walk

section Column

variable {Row : Type} {rows : IpTables → List Row} {key : IpTables → Row → Option (List ULong)}
  {nothing : IpTables → List ULong → List ULong}
  {content : IpTables → Row → List ULong → Content}

/-- The columns of the tables of a machine return what `next` relies on. -/
theorem nextBy_answers {contents : Contents} {device : IpTables} {world : World IpTables} (k : Nat)
    (steady : Steady enterprise device world)
    (listed : contents.rows k = (rows world.device).filterMap (key world.device))
    (shows : ∀ u ∈ rows world.device, ∀ args ∈ key world.device u, ∀ block,
      contents.shows k args ((content world.device u args).node block))
    (nextflag : Bool) (args : List ULong) :
    Steady enterprise device (nextBy rows key nothing content nextflag args world).2.2 ∧
      contents.Answers k (lowOf nextflag args)
        (nextBy rows key nothing content nextflag args world).1
        (nextBy rows key nothing content nextflag args world).2.1 := by
  have behind_iff (row : List ULong) : contents.Behind k (lowOf nextflag args) row ↔
      ∃ u ∈ rows world.device, row ∈ behind (key world.device) (lowOf nextflag args) u := by
    rw [Contents.Behind, listed, List.mem_filterMap]
    constructor
    · rintro ⟨⟨u, member, own⟩, above⟩
      exact ⟨u, member, mem_behind.mpr ⟨own, above⟩⟩
    · rintro ⟨u, member, here⟩
      obtain ⟨own, above⟩ := mem_behind.mp here
      exact ⟨⟨u, member, own⟩, above⟩
  have low : (if nextflag = true then some args else none) = lowOf nextflag args := rfl
  rw [nextBy, low]
  cases found : least (behind (key world.device) (lowOf nextflag args)) (rows world.device) with
  | none =>
    refine ⟨steady, .inl ⟨rfl, fun row above => ?_⟩⟩
    obtain ⟨u, member, here⟩ := (behind_iff row).mp above
    rw [least_eq_none.mp found u member] at here
    cases here
  | some first =>
    obtain ⟨u, args'⟩ := first
    obtain ⟨member, here, least⟩ := least_eq_some found
    obtain ⟨own, -⟩ := mem_behind.mp here
    obtain ⟨world', result, same, granted'⟩ :=
      answer_granted steady.granted (content world.device u args')
    have snmp : world'.snmp = world.snmp := by
      have snd : (answer world (some (content world.device u args'))).2 = world' :=
        congrArg Prod.snd result
      rw [← snd]
      rfl
    simp only [result]
    refine ⟨⟨snmp ▸ steady.enterprise, same.trans steady.device, granted'⟩,
      .inr ⟨node_ne_nil _ _, shows u member args' own _,
        (behind_iff args').mpr ⟨u, member, here⟩, fun row above => ?_⟩⟩
    obtain ⟨other, member', here'⟩ := (behind_iff row).mp above
    exact not_lt.mpr (least other member' row here')

def gatewayed : IpTables where
  target := .i386
  wideMask _ := 0
  route := [⟨some 0, .any, .any, .any, #v[10, 0, 0, 21], .any, 0⟩]
  arp := none
  udp_sockets := [⟨none, 161⟩]
  route_lt := by decide
  udp_sockets_lt := by decide

/-- A single variable, and the column of the types of the routes. -/
def routeTypes : SnmpTable IpTables :=
  ⟨[⟨[1], by decide, .var, none, none, none⟩,
    ⟨[2], by decide, .tab4, some ipRouteType.get, some ipRouteType.next, none⟩], by decide⟩

def defaultRoute : Contents where
  rows := fun
    | 0 => [[]]
    | _ => [[0]]
  shows k _ val := k = 0 ∧ val = .null ∨ ∃ block, val = (Content.integer 3).node block

theorem defaultRoute_arranged : defaultRoute.Arranged 9 routeTypes.1 where
  sorted := List.pairwise_pair.mpr (by decide)
  separate := List.pairwise_pair.mpr (by decide)
  named := by
    intro k v entry row member
    match k with
    | 0 =>
      cases entry
      obtain rfl := List.mem_singleton.mp member
      exact ⟨[1], [1], [], rfl, by decide, .nil⟩
    | 1 =>
      cases entry
      obtain rfl := List.mem_singleton.mp member
      exact ⟨[2, 0, 0, 0, 0], [2], [0, 0, 0, 0], rfl, by decide, .address (by simp [Octet]) .nil⟩

theorem defaultRoute_served : defaultRoute.Served 9 gatewayed routeTypes.1 where
  var k v entry single := by
    match k with
    | 0 =>
      cases entry
      exact ⟨rfl, .inl ⟨rfl, rfl⟩⟩
    | 1 => cases entry; cases single
  simple k v entry tab1 _ := by
    match k with
    | 0 | 1 => cases entry; cases tab1
  empty k v entry var _ absent := by
    match k with
    | 0 => cases entry; exact absurd rfl var
    | 1 => cases entry; cases absent
  next k v next entry var offers nextflag args world steady _ := by
    match k with
    | 0 => cases entry; cases offers
    | 1 =>
      cases entry
      cases offers
      have listed : defaultRoute.rows 1 =
          world.device.route.filterMap (routeKey isGateway) := by
        rw [steady.device]
        decide
      exact nextBy_answers 1 steady listed (fun _ _ _ _ block => Or.inr ⟨block, rfl⟩) nextflag
        args

def gateway : Agent IpTables where
  snmp := { Snmp.zeroed with enterprise := 9 }
  pool := ⟨fun _ => true, 0, []⟩
  device := gatewayed

theorem gateway_steady : Steady 9 gatewayed gateway.toWorld :=
  ⟨rfl, rfl, fun _ => rfl⟩

theorem next_toured_name :
    (defaultRoute.Successor 9 routeTypes.1 [2] (next routeTypes gateway [2] .nil 0).1
        (next routeTypes gateway [2] .nil 0).2.1 (next routeTypes gateway [2] .nil 0).2.2.1 ∧
      ∀ visited final, NextWalk routeTypes 9 gatewayed ((next routeTypes gateway [2] .nil 0).1,
          (next routeTypes gateway [2] .nil 0).2.1, (next routeTypes gateway [2] .nil 0).2.2.1)
          visited final → defaultRoute.Toured 9 routeTypes.1 [2] visited final) ↔
      defaultRoute.Agrees 9 routeTypes.1 [2] 0 :=
  next_toured_iff defaultRoute_arranged defaultRoute_served gateway_steady

/-- The first component of its index does not lead to the default route. -/
theorem next_passes_defaultRoute :
    ¬∀ (contents : Contents) (tab : SnmpTable IpTables) (device : IpTables) (enterprise : ULong)
      (agent : Agent IpTables) (id : List UShort) (name : Asn) (i3 : ULong),
      (∀ v ∈ tab.1.head?, v.nargs = 0) → contents.Arranged enterprise tab.1 →
        contents.Served enterprise device tab.1 → Steady enterprise device agent.toWorld →
          contents.Successor enterprise tab.1 id (next tab agent id name i3).1
            (next tab agent id name i3).2.1 (next tab agent id name i3).2.2.1 := by
  intro all
  have successor := all defaultRoute routeTypes gatewayed 9 gateway [2, 0] .nil 0
    (by decide) defaultRoute_arranged defaultRoute_served gateway_steady
  have named : defaultRoute.Named 9 routeTypes.1 1 [0] [2, 0, 0, 0, 0] :=
    ⟨_, rfl, .head _, [2], [0, 0, 0, 0], rfl, rfl, .address (by simp [Octet]) .nil⟩
  exact successor.last rfl named (by decide)

end Column

end Snmp
end Uos
