import Uos.Snmp.Access
import Uos.Snmp.Search

/-!
# Instances

Which identifiers name an instance of a variable, and which of them `get_set` takes for one.
-/

namespace Uos

open List BitVec

namespace Snmp

/-- A part of an index. -/
inductive IndexPart
  | number
  | address
  deriving DecidableEq

def parts : SnmpType → List IndexPart
  | .var => []
  | .tab1 => [.number]
  | .tab4 => [.address]
  | .tab41 => [.address, .number]
  | .tab14 => [.number, .address]
  | .tab4141 => [.address, .number, .address, .number]
  | .tab111 => [.number, .number, .number]

def IndexPart.size : IndexPart → Nat
  | number => 1
  | address => 4

/-- A component that stands for a byte. -/
def Octet (component : UShort) : Prop :=
  component.toNat ≤ 255

def address (a b c d : UShort) : ULong :=
  .ofNat 32 (((a.toNat * 256 + b.toNat) * 256 + c.toNat) * 256 + d.toNat)

/-- The arguments that the components of an index denote. -/
inductive Denotes : List IndexPart → List UShort → List ULong → Prop
  | nil : Denotes [] [] []
  | number {parts : List IndexPart} {index : List UShort} {args : List ULong} (i : UShort)
      (rest : Denotes parts index args) :
      Denotes (.number :: parts) (i :: index) (i.setWidth 32 :: args)
  | address {parts : List IndexPart} {index : List UShort} {args : List ULong} {a b c d : UShort}
      (bytes : Octet a ∧ Octet b ∧ Octet c ∧ Octet d) (rest : Denotes parts index args) :
      Denotes (.address :: parts) (a :: b :: c :: d :: index) (Snmp.address a b c d :: args)

variable {Device : Type} {enterprise : ULong} {v : SnmpVar Device} {type : SnmpType}
  {id id' name index index' : List UShort} {args : List ULong} {groups : List IndexPart}

/-- An identifier names the instance of a variable with these arguments: it is the name of the
variable, followed by an index. -/
def Instance (enterprise : ULong) (v : SnmpVar Device) (id : List UShort) (args : List ULong) :
    Prop :=
  ∃ name index, id = name ++ index ∧ components name = v.name enterprise ∧
    Denotes (parts v.type) index args

theorem sum_size (type : SnmpType) : ((parts type).map IndexPart.size).sum = type.nargs := by
  cases type <;> rfl

theorem Denotes.length (denotes : Denotes groups index args) :
    index.length = (groups.map IndexPart.size).sum := by
  induction denotes with
  | nil => rfl
  | number i rest ih =>
    simp only [length_cons, map_cons, sum_cons, IndexPart.size]
    omega
  | address bytes rest ih =>
    simp only [length_cons, map_cons, sum_cons, IndexPart.size]
    omega

theorem address_toNat {a b c d : UShort} (bytes : Octet a ∧ Octet b ∧ Octet c ∧ Octet d) :
    (address a b c d).toNat = ((a.toNat * 256 + b.toNat) * 256 + c.toNat) * 256 + d.toNat := by
  simp only [Octet] at bytes
  rw [address, toNat_ofNat]
  omega

theorem Denotes.injective (denotes : Denotes groups index args) :
    ∀ {index'}, Denotes groups index' args → index = index' := by
  induction denotes with
  | nil =>
    rintro index' ⟨⟩
    rfl
  | number i rest ih =>
    intro index' other
    generalize whole : i.setWidth 32 :: _ = args at other
    cases other with
    | number j rest' =>
      injection whole with head tail
      obtain rfl : i = j := by
        have numbers := congrArg BitVec.toNat head
        simp only [toNat_setWidth] at numbers
        exact eq_of_toNat_eq (by omega)
      rw [ih (tail ▸ rest')]
  | address bytes rest ih =>
    intro index' other
    generalize whole : Snmp.address _ _ _ _ :: _ = args at other
    cases other with
    | address bytes' rest' =>
      injection whole with head tail
      have numbers := congrArg BitVec.toNat head
      rw [address_toNat bytes, address_toNat bytes'] at numbers
      simp only [Octet] at bytes bytes'
      rw [ih (tail ▸ rest')]
      congr 1
      · exact eq_of_toNat_eq (by omega)
      congr 1
      · exact eq_of_toNat_eq (by omega)
      congr 1
      · exact eq_of_toNat_eq (by omega)
      congr 1
      · exact eq_of_toNat_eq (by omega)

theorem instance_injective (named : Instance enterprise v id args)
    (named' : Instance enterprise v id' args) : id = id' := by
  obtain ⟨name, index, rfl, equal, denotes⟩ := named
  obtain ⟨name', index', rfl, equal', denotes'⟩ := named'
  rw [components_injective (equal.trans equal'.symm), denotes.injective denotes']

/-- The arguments that are taken from an index, whatever its components are. -/
def taken : List IndexPart → List UShort → List ULong
  | [], _ => []
  | .number :: parts, index => number index 0 :: taken parts (index.drop 1)
  | .address :: parts, index => long index 0 :: taken parts (index.drop 4)

theorem number_drop (offset i : Nat) : number (id.drop offset) i = number id (offset + i) := by
  rw [number, number, getD_eq_getElem?_getD, getD_eq_getElem?_getD, List.getElem?_drop]

theorem long_drop (offset i : Nat) : long (id.drop offset) i = long id (offset + i) := by
  simp only [long, getD_eq_getElem?_getD, List.getElem?_drop, Nat.add_assoc]

/-- `get_set` takes the arguments from the components behind the name. -/
theorem arguments_eq (id : List UShort) (idlen : Nat) (type : SnmpType) :
    arguments id idlen type = taken (parts type) (id.drop idlen) := by
  cases type <;> simp [arguments, parts, taken, number_drop, long_drop]

theorem long_octets {a b c d : UShort} (bytes : Octet a ∧ Octet b ∧ Octet c ∧ Octet d)
    (rest : List UShort) : long (a :: b :: c :: d :: rest) 0 = address a b c d := by
  obtain ⟨small_a, small_b, small_c, small_d⟩ := bytes
  simp only [Octet] at small_a small_b small_c small_d
  have word : ∀ {x : UShort} {k : Nat}, x.toNat ≤ 255 → k ≤ 24 →
      (x.setWidth 32 <<< k).toNat = 2 ^ k * x.toNat := by
    intro x k small few
    have power : 2 ^ k ≤ 2 ^ 24 := Nat.pow_le_pow_right (by decide) few
    have bound : 2 ^ k * x.toNat ≤ 2 ^ 24 * 255 := Nat.mul_le_mul power small
    have narrow : x.toNat % 2 ^ 32 = x.toNat := Nat.mod_eq_of_lt (by omega)
    rw [toNat_shiftLeft, toNat_setWidth, narrow, Nat.shiftLeft_eq, Nat.mul_comm,
      Nat.mod_eq_of_lt (by omega)]
  apply eq_of_toNat_eq
  rw [address_toNat ⟨small_a, small_b, small_c, small_d⟩]
  change (a.setWidth 32 <<< 24 ||| b.setWidth 32 <<< 16 ||| c.setWidth 32 <<< 8 |||
    d.setWidth 32).toNat = _
  rw [toNat_or, toNat_or, toNat_or, word small_a (by omega),
    word small_b (by omega), word small_c (by omega), toNat_setWidth,
    Nat.mod_eq_of_lt (by omega), ← Nat.two_pow_add_eq_or_of_lt (by omega)]
  have two : 2 ^ 24 * a.toNat + 2 ^ 16 * b.toNat = 2 ^ 16 * (256 * a.toNat + b.toNat) := by omega
  rw [two, ← Nat.two_pow_add_eq_or_of_lt (by omega)]
  have three : 2 ^ 16 * (256 * a.toNat + b.toNat) + 2 ^ 8 * c.toNat =
      2 ^ 8 * (65536 * a.toNat + 256 * b.toNat + c.toNat) := by omega
  rw [three, ← Nat.two_pow_add_eq_or_of_lt (by omega)]
  omega

theorem taken_of_denotes (denotes : Denotes groups index args) : taken groups index = args := by
  induction denotes with
  | nil => rfl
  | number i rest ih => rw [taken, drop_one, tail_cons, ih, number, getD_cons_zero]
  | address bytes rest ih => rw [taken, long_octets bytes, ← ih]; rfl

theorem components_append : components (name ++ index) = components name ++ components index :=
  map_append

theorem name_le (named : Instance enterprise v id args) : v.name enterprise ≤ components id := by
  obtain ⟨name, index, rfl, equal, -⟩ := named
  rw [components_append, equal]
  exact le_of_not_gt (@le_append_left Nat _ _ _ _)

/-- No variable of a table has an instance with this identifier. -/
def Unnamed (enterprise : ULong) (tab : List (SnmpVar Device)) (id : List UShort) : Prop :=
  ∀ w ∈ tab, ∀ args, ¬Instance enterprise w id args

def accessOf (setflag : Bool) : SnmpAccess :=
  if setflag then .set else .get

/-- A request acts on the instance that it names and on no other: every call that is made is for
this instance, which no other identifier names, and a request that names none fails without a
call. -/
def Exact (enterprise : ULong) (tab : List (SnmpVar Device)) (id : List UShort) (setflag : Bool)
    (before : Agent Device) (error : SnmpError) (after : Agent Device) : Prop :=
  ∃ made, after.calls = before.calls ++ made ∧
    (∀ call ∈ made, call.access = accessOf setflag ∧
      ∃ v, tab[call.var]? = some v ∧ Instance enterprise v id call.args ∧
        ∀ id', Instance enterprise v id' call.args → id' = id) ∧
    (Unnamed enterprise tab id → made = [] ∧ error ≠ .noError)

/-- The function that a request asks a variable for. -/
def Offers (v : SnmpVar Device) (setflag : Bool) : Prop :=
  if setflag then v.set ≠ none else v.get ≠ none

/-- Why a request goes astray at a variable: a table whose index has the right length while the
name or a byte of an address is wrong, a variable that cannot be read, or a single variable with
another name of the same length. -/
def Astray (enterprise : ULong) (tab : List (SnmpVar Device)) (id : List UShort) (val : Asn)
    (setflag : Bool) (v : SnmpVar Device) : Prop :=
  (Offers v setflag ∧ v.name enterprise ≠ components id ∧ v.idlen + v.nargs = id.length ∧
    v.type ≠ .var ∧ ∀ args, ¬Instance enterprise v id args) ∨
  (setflag = false ∧ v.get = none ∧ Unnamed enterprise tab id) ∨
  (setflag = true ∧ v.set ≠ none ∧ v.name enterprise ≠ components id ∧ v.idlen = id.length ∧
    v.type = .var ∧ val.type? ≠ none ∧ Unnamed enterprise tab id)

section Exact

variable {tab : List (SnmpVar Device)} {setflag : Bool} {before after : Agent Device}
  {error : SnmpError}

theorem noSuchName_ne : SnmpError.noSuchName ≠ .noError := by
  decide

theorem readOnly_ne : SnmpError.readOnly ≠ .noError := by
  decide

theorem exact_quiet (same : after.calls = before.calls) (failed : error ≠ .noError) :
    Exact enterprise tab id setflag before error after :=
  ⟨[], by simp [same], by simp, fun _ => ⟨rfl, failed⟩⟩

theorem exact_noError (same : after.calls = before.calls) (worked : error = .noError) :
    Exact enterprise tab id setflag before error after ↔ ¬Unnamed enterprise tab id := by
  constructor
  · rintro ⟨made, -, -, fails⟩ unnamed
    exact (fails unnamed).2 worked
  · exact fun named => ⟨[], by simp [same], by simp, fun unnamed => absurd unnamed named⟩

theorem exact_call {k : Nat} (entry : tab[k]? = some v)
    (called : after.calls = before.calls ++ [⟨accessOf setflag, k, args⟩]) :
    Exact enterprise tab id setflag before error after ↔ Instance enterprise v id args := by
  constructor
  · rintro ⟨made, calls, named, -⟩
    rw [called, append_cancel_left_eq] at calls
    subst calls
    obtain ⟨-, w, found, named, -⟩ := named _ mem_cons_self
    rw [entry] at found
    cases found
    exact named
  · intro named
    refine ⟨_, called, fun call member => ?_, fun unnamed => ?_⟩
    · rw [mem_singleton] at member
      subst member
      exact ⟨rfl, v, entry, named, fun id' named' => instance_injective named' named⟩
    · exact absurd named (unnamed v (mem_of_getElem? entry) args)

theorem calls_callSet {k : Nat} {val : Asn}
    {set : Asn → List ULong → World Device → SnmpError × World Device} :
    (callSet before k args val set).2.2.calls = before.calls ++ [⟨.set, k, args⟩] :=
  rfl

theorem calls_callGet {k : Nat} {get : List ULong → World Device → Asn × World Device} :
    (callGet before k args get).2.2.calls = before.calls ++ [⟨.get, k, args⟩] := by
  rw [callGet]
  split <;> rename_i called <;> exact (congrArg (fun result => result.2.calls) called).symm

theorem instance_arguments (id : List UShort) :
    Instance enterprise v id (arguments id v.idlen v.type) ↔
      ∃ args, Instance enterprise v id args := by
  constructor
  · exact fun named => ⟨_, named⟩
  · rintro ⟨args, name, index, rfl, equal, denotes⟩
    have length : v.idlen = name.length := by
      rw [← v.length_name, ← equal, components, length_map]
    refine ⟨name, index, rfl, equal, ?_⟩
    rwa [arguments_eq, length, drop_left, taken_of_denotes denotes]

theorem nargs_eq_zero : v.nargs = 0 ↔ v.type = .var := by
  rw [SnmpVar.nargs]
  cases v.type <;> simp [SnmpType.nargs]

theorem instance_var (single : v.type = .var) (equal : v.name enterprise = components id) :
    Instance enterprise v id [] := by
  refine ⟨id, [], (append_nil id).symm, equal.symm, ?_⟩
  rw [single]
  exact .nil

section Astray

variable {val : Asn}

theorem not_astray_equal (single : setflag = true ∨ v.get ≠ none)
    (equal : v.name enterprise = components id) :
    ¬Astray enterprise tab id val setflag v := by
  rintro (⟨-, other, -⟩ | ⟨reads, absent, -⟩ | ⟨-, -, other, -⟩)
  · exact other equal
  · rcases single with writes | present
    · rw [reads] at writes
      contradiction
    · exact present absent
  · exact other equal

theorem not_astray_length (single : setflag = true ∨ v.get ≠ none)
    (length : v.idlen + v.nargs ≠ id.length) : ¬Astray enterprise tab id val setflag v := by
  rintro (⟨-, -, same, -⟩ | ⟨reads, absent, -⟩ | ⟨-, -, -, same, var, -⟩)
  · exact length same
  · rcases single with writes | present
    · rw [reads] at writes
      contradiction
    · exact present absent
  · rw [nargs_eq_zero.mpr var] at length
    exact length same

theorem astray_table (offers : Offers v setflag) (other : v.name enterprise ≠ components id)
    (length : v.idlen + v.nargs = id.length) (table : v.type ≠ .var) :
    Astray enterprise tab id val setflag v ↔ ∀ args, ¬Instance enterprise v id args := by
  constructor
  · rintro (⟨-, -, -, -, unnamed⟩ | ⟨reads, absent, -⟩ | ⟨-, -, -, -, var, -⟩)
    · exact unnamed
    · rw [Offers, reads] at offers
      exact absurd absent offers
    · exact absurd var table
  · exact fun unnamed => .inl ⟨offers, other, length, table, unnamed⟩

end Astray

/-- What `get_set` does once the entry is found. -/
theorem exact_getSet {tab : SnmpTable Device} {k : Nat} {exact : Bool} {val : Asn}
    (found : findVar before.snmp.enterprise tab id = some (k, exact)) (entry : tab.1[k]? = some v)
    (same : exact = true ↔ v.name before.snmp.enterprise = components id) :
    Exact before.snmp.enterprise tab.1 id setflag before (getSet tab before id val setflag).1
      (getSet tab before id val setflag).2.2 ↔
    ¬Astray before.snmp.enterprise tab.1 id val setflag v := by
  rw [getSet]
  simp only [found, entry]
  cases setflag with
  | true =>
    cases offered : v.set with
    | none =>
      apply iff_of_true (exact_quiet rfl readOnly_ne)
      simp [Astray, Offers, offered]
    | some set =>
      have offers : Offers v true := by simp [Offers, offered]
      simp only
      split_ifs with equal args length var absent
      · exact iff_of_true (exact_quiet rfl noSuchName_ne)
          (not_astray_equal (.inl rfl) (same.mp equal))
      · rw [exact_call entry calls_callSet]
        exact iff_of_true (instance_var (nargs_eq_zero.mp (not_not.mp args)) (same.mp equal))
          (not_astray_equal (.inl rfl) (same.mp equal))
      · exact iff_of_true (exact_quiet rfl noSuchName_ne) (not_astray_length (.inl rfl) length)
      · apply iff_of_true (exact_quiet rfl noSuchName_ne)
        simp [Astray, var, absent]
      · rw [exact_noError rfl rfl]
        have single : v.idlen = id.length := by
          rw [← not_not.mp length, nargs_eq_zero.mpr var, Nat.add_zero]
        simp [Astray, Offers, offered, mt same.mpr equal, single, var, absent]
      · rw [exact_call entry calls_callSet, instance_arguments,
          astray_table offers (mt same.mpr equal) (not_not.mp length) var]
        simp
  | false =>
    cases offered : v.get with
    | none =>
      rw [exact_noError rfl rfl]
      simp [Astray, Offers, offered]
    | some get =>
      have offers : Offers v false := by simp [Offers, offered]
      have present : v.get ≠ none := by simp [offered]
      simp only
      split_ifs with equal args length var
      · exact iff_of_true (exact_quiet rfl noSuchName_ne)
          (not_astray_equal (.inr present) (same.mp equal))
      · rw [exact_call entry calls_callGet]
        exact iff_of_true (instance_var (nargs_eq_zero.mp (not_not.mp args)) (same.mp equal))
          (not_astray_equal (.inr present) (same.mp equal))
      · exact iff_of_true (exact_quiet rfl noSuchName_ne)
          (not_astray_length (.inr present) length)
      · apply iff_of_true (exact_quiet rfl noSuchName_ne)
        simp [Astray, var, present]
      · rw [exact_call entry calls_callGet, instance_arguments,
          astray_table offers (mt same.mpr equal) (not_not.mp length) var]
        simp

end Exact

/-- In a sorted table `get_set` acts exactly on the instance that an identifier names, if and only
if the last entry that is not behind the identifier does not lead it astray. -/
theorem getSet_exact_iff {tab : SnmpTable Device} {agent : Agent Device} {val : Asn}
    {setflag : Bool} (sorted : Sorted agent.snmp.enterprise tab.1) :
    Exact agent.snmp.enterprise tab.1 id setflag agent (getSet tab agent id val setflag).1
      (getSet tab agent id val setflag).2.2 ↔
    ∀ k v, Last agent.snmp.enterprise tab.1 (components id) k v →
      ¬Astray agent.snmp.enterprise tab.1 id val setflag v := by
  have spec := @found_findVar Device agent.snmp.enterprise id tab sorted
  generalize result : findVar agent.snmp.enterprise tab id = answer at spec
  cases answer with
  | none =>
    cases spec with
    | nothing behind =>
      apply iff_of_true
      · rw [getSet]
        simp only [result]
        exact exact_quiet rfl noSuchName_ne
      · exact fun k v last => absurd (behind k v last.entry) (not_lt_of_ge last.le)
  | some answer =>
    obtain ⟨k, exact⟩ := answer
    obtain ⟨v, last, same⟩ := found_last sorted spec
    rw [exact_getSet result last.entry same]
    constructor
    · intro fine k' v' last'
      obtain ⟨-, rfl⟩ := last_unique last last'
      exact fine
    · exact fun fine => fine k v last

/-- A column of a table with an address as its index, which can be read. -/
def column : SnmpVar Unit where
  id := [2, 1]
  idlen_lt := by decide
  type := .tab4
  get := some fun _ world => (.integer 0 5, world)
  next := none
  set := none

def columns : SnmpTable Unit :=
  ⟨[column], by decide⟩

def fresh : Agent Unit where
  snmp := Snmp.zeroed.init 9
  pool := { grants := fun _ => true }
  device := ()

theorem getSet_exact_row :
    Exact fresh.snmp.enterprise columns.1 [2, 1, 10, 0, 0, 1] false fresh
      (getSet columns fresh [2, 1, 10, 0, 0, 1] .nil false).1
      (getSet columns fresh [2, 1, 10, 0, 0, 1] .nil false).2.2 ↔
    ∀ k v, Last fresh.snmp.enterprise columns.1 (components [2, 1, 10, 0, 0, 1]) k v →
      ¬Astray fresh.snmp.enterprise columns.1 [2, 1, 10, 0, 0, 1] .nil false v :=
  getSet_exact_iff (pairwise_singleton _ _)

/-- The identifier of another column of the same length reaches the column in front of it. -/
theorem getSet_otherColumn :
    ¬∀ (tab : SnmpTable Unit) (agent : Agent Unit) (id : List UShort) (val : Asn) (setflag : Bool),
      Sorted agent.snmp.enterprise tab.1 →
        Exact agent.snmp.enterprise tab.1 id setflag agent (getSet tab agent id val setflag).1
          (getSet tab agent id val setflag).2.2 := by
  intro all
  have exact := all columns fresh [2, 9, 10, 0, 0, 1] .nil false (pairwise_singleton _ _)
  have called : (getSet columns fresh [2, 9, 10, 0, 0, 1] .nil false).2.2.calls =
      fresh.calls ++ [⟨accessOf false, 0, arguments [2, 9, 10, 0, 0, 1] 2 .tab4⟩] := rfl
  have named := (@exact_call _ _ column _ _ columns.1 _ _ _ _ 0 rfl called).mp exact
  obtain ⟨name, index, whole, equal, -⟩ := named
  obtain rfl : name = [2, 1] := components_injective equal
  simp at whole

end Snmp
end Uos
