import Uos.Snmp.Ledger
import Uos.Snmp.Shapes

/-!
# Leaks

Which blocks `snmp_execute` does not release, and when there are none.
-/

namespace Uos

open List

namespace Asn

variable {pool pool' : MemPool} {input : List UChar}

theorem ledger_makeException (type : AsnException) :
    Ledger pool (makeException pool type).2 (tally (makeException pool type).1.blocks) :=
  ledger_leaf (exception · type) (fun _ => rfl) rfl

theorem ledger_getInt : Ledger pool (getInt pool input).2 (tally (getInt pool input).1.blocks) := by
  rw [getInt]
  split_ifs
  · exact ledger_same pool
  · split
    · rename_i denied
      exact ledger_alloc_none denied
    · rename_i granted
      split <;> exact ledger_alloc_some granted

theorem ledger_getUint (type : AsnUnsigned) :
    Ledger pool (getUint pool type input).2 (tally (getUint pool type input).1.blocks) := by
  rw [getUint]
  split_ifs
  · exact ledger_same pool
  · exact ledger_leaf (unsigned · type (foldBytes 0 input)) (fun _ => rfl) rfl

theorem ledger_getString (type : AsnText) :
    Ledger pool (getString pool type input).2 (tally (getString pool type input).1.blocks) :=
  ledger_leaf (string · type (.ofNat 16 input.length) input) (fun _ => rfl) rfl

theorem ledger_getOid : Ledger pool (getOid pool input).2 (tally (getOid pool input).1.blocks) := by
  rw [getOid]
  split
  · rename_i denied
    exact ledger_alloc_none denied
  · rename_i block pool' granted
    split
    · exact ledger_alloc_some granted
    · split
      · refine ((ledger_alloc_some granted).trans (ledger_freeBlock block)).congr fun other => ?_
        simp [blocks]
      · exact ledger_alloc_some granted

mutual

/-- While something is parsed, no node that holds memory is lost: where a node cannot be enlarged,
and where the count of its nodes wraps around, the nodes in it hold no memory. -/
def ParseKeeps : Nat → MemPool → List UChar → Prop
  | 0, _, _ | _ + 1, _, [] => True
  | turns + 1, pool, type :: input =>
    match getLength input with
    | none => True
    | some (len, inp) =>
      if inp.length < len then True
      else
        match kindOf type, pool.alloc with
        | .constructed type, (some block, pool) =>
          SequenceKeeps turns pool type block 0 5 [] (inp.take len)
        | _, _ => True

def SequenceKeeps : Nat → MemPool → AsnConstructed → Block → UShort → Nat → List Asn →
    List UChar → Prop
  | _, _, _, _, _, _, _, [] | 0, _, _, _, _, _, _, _ :: _ => True
  | turns + 1, pool, type, block, count, nelem, arr, byte :: input =>
    match enlarge pool block count nelem with
    | (none, _) => blocksArr count.toNat arr = []
    | (some (block, nelem), pool) =>
      ParseKeeps turns pool (byte :: input) ∧
        match parseWith turns pool (byte :: input) with
        | (none, _) => True
        | (some (e, rest), pool) =>
          (count = 65535 → blocksArr count.toNat arr = [] ∧ e.blocks = []) ∧
            SequenceKeeps turns pool type block (count + 1) nelem (putAt arr count e) rest

end

theorem blocksArr_putAt {arr : List Asn} {count : UShort} (e : Asn)
    (within : count.toNat ≤ arr.length) (below : count ≠ 65535) :
    blocksArr (count + 1).toNat (putAt arr count e) = blocksArr count.toNat arr ++ e.blocks := by
  have next : (count + 1).toNat = count.toNat + 1 := by bv_omega
  rw [next, blocksArr_eq, blocksArr_eq, putAt]
  split_ifs with inside
  · rw [take_add_one, take_set_of_le le_rfl, List.getElem?_set_self inside]
    simp
  · have all : count.toNat = arr.length := by omega
    rw [all, take_length, take_of_length_le (by simp)]
    simp

theorem ledger_enlarge {block : Block} {count : UShort} {nelem : Nat}
    {result : Option (Block × Nat)} (done : enlarge pool block count nelem = (result, pool')) :
    Ledger pool pool' fun other =>
      tally (result.map Prod.fst).toList other - tally [block] other := by
  rw [enlarge] at done
  split_ifs at done
  · generalize answer : pool.alloc = granted at done
    obtain ⟨_ | block', pool''⟩ := granted
    · simp only [MemPool.realloc, answer] at done
      cases done
      refine ((ledger_alloc_none answer).trans (ledger_freeBlock block)).congr fun other => ?_
      simp
    · simp only [MemPool.realloc, answer] at done
      cases done
      exact (ledger_alloc_some answer).trans (ledger_freeBlock block)
  · cases done
    exact (ledger_same pool).congr fun other => by simp

theorem ledger_freeArr (n : Nat) (arr : List Asn) :
    Ledger pool (freeArr n arr pool) fun other => -tally (blocksArr n arr) other := by
  rw [freeArr_eq]
  exact ledger_release _

def gotBlocks : Option (Asn × List UChar) → List Block
  | none => []
  | some (b, _) => b.blocks

theorem ledger_getNode {getSequence : MemPool → AsnConstructed → Block → List UChar → Asn × MemPool}
    {kind : AsnKind} (plain : ∀ type, kind ≠ .constructed type) :
    Ledger pool (getNode getSequence pool input kind).2
      (tally (getNode getSequence pool input kind).1.blocks) := by
  cases kind with
  | constructed type => exact absurd rfl (plain type)
  | unknown | null => exact ledger_same pool
  | exception type => exact ledger_makeException type
  | integer => exact ledger_getInt
  | unsigned type =>
    rw [getNode]
    split_ifs
    · exact ledger_same pool
    · exact ledger_getUint type
  | string type => exact ledger_getString type
  | oid => exact ledger_getOid

theorem exists_ledger_getNode
    {getSequence : MemPool → AsnConstructed → Block → List UChar → Asn × MemPool}
    {keeps : MemPool → AsnConstructed → Block → Prop} (kind : AsnKind)
    (sequence : ∀ pool type block, ∃ leaked,
      Ledger pool (getSequence pool type block input).2 (fun other =>
        tally (getSequence pool type block input).1.blocks other + tally leaked other -
          tally [block] other) ∧ (leaked = [] ↔ keeps pool type block)) :
    ∃ leaked, Ledger pool (getNode getSequence pool input kind).2 (fun other =>
        tally (getNode getSequence pool input kind).1.blocks other + tally leaked other) ∧
      (leaked = [] ↔ match kind, pool.alloc with
        | .constructed type, (some block, pool) => keeps pool type block
        | _, _ => True) := by
  cases kind with
  | constructed type =>
    rw [getNode]
    split
    · rename_i pool' denied
      exact ⟨[], (ledger_alloc_none denied).congr fun other => by simp [blocks], by simp [denied]⟩
    · rename_i block pool' granted
      obtain ⟨leaked, ledger, keeps⟩ := sequence pool' type block
      refine ⟨leaked, ((ledger_alloc_some granted).trans ledger).congr fun other => ?_, ?_⟩
      · omega
      · rw [keeps, granted]
  | unknown | null | exception | integer | unsigned | string | oid =>
    refine ⟨[], (ledger_getNode (by simp)).congr fun other => ?_, by simp⟩
    simp

theorem ledger_parse (turns : Nat) :
    (∀ {pool input}, input.length ≤ turns + 1 → ∃ leaked,
      Ledger pool (parseWith turns pool input).2 (fun other =>
        tally (gotBlocks (parseWith turns pool input).1) other + tally leaked other) ∧
      (leaked = [] ↔ ParseKeeps turns pool input)) ∧
    ∀ {pool type block count nelem arr input}, input.length ≤ turns → count.toNat ≤ arr.length →
      ∃ leaked, Ledger pool (getSequence turns pool type block count nelem arr input).2
      (fun other =>
          tally (getSequence turns pool type block count nelem arr input).1.blocks other +
            tally leaked other - tally (blocksArr count.toNat arr ++ [block]) other) ∧
        (leaked = [] ↔ SequenceKeeps turns pool type block count nelem arr input) := by
  induction turns with
  | zero =>
    constructor
    · intro pool input short
      refine ⟨[], (ledger_same pool).congr fun other => ?_, ?_⟩
      · simp [parseWith, gotBlocks]
      · cases input <;> simp [ParseKeeps]
    · intro pool type block count nelem arr input short within
      obtain rfl := length_eq_zero_iff.mp (Nat.le_zero.mp short)
      refine ⟨[], (ledger_same pool).congr fun other => ?_, ?_⟩
      · simp [getSequence, blocks]
      · simp [SequenceKeeps]
  | succ turns ih =>
    obtain ⟨parse_ledger, sequence_ledger⟩ := ih
    constructor
    · intro pool input short
      cases input with
      | nil =>
        refine ⟨[], (ledger_same pool).congr fun other => ?_, ?_⟩
        · simp [parseWith, gotBlocks]
        · simp [ParseKeeps]
      | cons type input =>
        rw [parseWith, ParseKeeps]
        cases length : getLength input with
        | none =>
          exact ⟨[], (ledger_same pool).congr fun other => by simp [gotBlocks], by simp⟩
        | some result =>
          obtain ⟨len, inp⟩ := result
          dsimp only
          split_ifs with long
          · exact ⟨[], (ledger_same pool).congr fun other => by simp [gotBlocks], by simp⟩
          · have shorter := length_getLength length
            rw [length_cons] at short
            have node_ledger := @exists_ledger_getNode pool (inp.take len)
              (fun pool type block inp => getSequence turns pool type block 0 5 [] inp) _
              (kindOf type) fun pool type block => by
                have inside : (inp.take len).length ≤ turns := by
                  rw [length_take]
                  omega
                exact @sequence_ledger pool type block 0 5 [] _ inside (Nat.zero_le 0)
            generalize getNode _ pool (inp.take len) (kindOf type) = node at node_ledger ⊢
            obtain ⟨b, pool'⟩ := node
            cases b <;> exact node_ledger
    · intro pool type block count nelem arr input short within
      cases input with
      | nil =>
        refine ⟨[], (ledger_same pool).congr fun other => ?_, ?_⟩
        · simp [getSequence, blocks]
        · simp [SequenceKeeps]
      | cons byte input =>
        rw [getSequence, SequenceKeeps]
        rw [length_cons] at short
        generalize room : enlarge pool block count nelem = result
        obtain ⟨_ | ⟨block', nelem'⟩, pool'⟩ := result
        · refine ⟨blocksArr count.toNat arr, (ledger_enlarge room).congr fun other => ?_, .rfl⟩
          simp [blocks]
        · obtain ⟨leaked, ledger, keeps⟩ :=
            @parse_ledger pool' (byte :: input) (by simpa using short)
          dsimp only
          generalize parsed : parseWith turns pool' (byte :: input) = answer at ledger ⊢
          obtain ⟨_ | ⟨e, rest⟩, pool''⟩ := answer
          · refine ⟨leaked, ((((ledger_enlarge room).trans ledger).trans
              (ledger_freeArr _ arr)).trans (ledger_freeBlock block')).congr
                fun other => ?_, ?_⟩
            · simp [gotBlocks, blocks]
              omega
            · rw [keeps, and_true]
          · have shorter := length_parseWith parsed
            rw [length_cons] at shorter
            obtain ⟨leaked', ledger', keeps'⟩ := @sequence_ledger pool'' type block' (count + 1)
              nelem' (putAt arr count e) rest (by omega) (putAt_length within)
            have all := ((ledger_enlarge room).trans ledger).trans ledger'
            rcases eq_or_ne count 65535 with rfl | below
            · refine ⟨leaked ++ (blocksArr (65535 : UShort).toNat arr ++ e.blocks) ++ leaked',
                all.congr fun other => ?_, ?_⟩
              · have zero : ((65535 : UShort) + 1).toNat = 0 := by decide
                rw [zero]
                simp [gotBlocks, blocksArr]
                omega
              · rw [append_eq_nil_iff, append_eq_nil_iff,
                  append_eq_nil_iff, keeps,
                  keeps', and_assoc]
                simp
            · refine ⟨leaked ++ leaked', all.congr fun other => ?_, ?_⟩
              · rw [blocksArr_putAt e within below]
                simp [gotBlocks]
                omega
              · rw [append_eq_nil_iff, keeps, keeps']
                exact and_congr_right fun _ =>
                  (and_iff_right fun wraps => absurd wraps below).symm

end Asn

namespace Snmp

open Command

variable {Device : Type} {tab : SnmpTable Device} {agent : Agent Device} {request : Request}

/-- The functions of a variable return a value that they allocated, or none, and keep nothing. -/
structure Frugal (v : SnmpVar Device) : Prop where
  get : ∀ get, v.get = some get → ∀ args world,
    Ledger world.pool (get args world).2.pool (tally (get args world).1.blocks)
  next : ∀ next, v.next = some next → ∀ nextflag args world,
    Ledger world.pool (next nextflag args world).2.2.pool
    (tally (next nextflag args world).1.blocks)
  set : ∀ set, v.set = some set → ∀ val args world,
    Ledger world.pool (set val args world).2.pool fun _ => 0

/-- All variables of a table are frugal. -/
def FrugalTable (tab : SnmpTable Device) : Prop :=
  ∀ v ∈ tab.1, Frugal v

def gained (error_code : SnmpError) (blocks : List Block) : List Block :=
  if error_code = .noError then blocks else []

theorem gained_error {error_code : SnmpError} (error : error_code ≠ .noError)
    (blocks : List Block) : gained error_code blocks = [] :=
  if_neg error

theorem gained_noError (blocks : List Block) : gained .noError blocks = blocks :=
  if_pos rfl

theorem ledger_nothing : Ledger agent.pool agent.pool (tally []) :=
  ledger_same agent.pool

theorem ledger_callGet {vp : Nat} {args : List ULong}
    {get : List ULong → World Device → Asn × World Device}
    (frugal : ∀ world, Ledger world.pool (get args world).2.pool
      (tally (get args world).1.blocks)) :
    Ledger agent.pool (callGet agent vp args get).2.2.pool
      (tally (gained (callGet agent vp args get).1 (callGet agent vp args get).2.1.blocks)) := by
  have own := frugal agent.toWorld
  rw [callGet, Agent.call]
  generalize get args agent.toWorld = result at own ⊢
  obtain ⟨val, world⟩ := result
  cases val <;> exact own

theorem ledger_getSet (frugal : FrugalTable tab) (id : List UShort) (val : Asn) (setflag : Bool) :
    Ledger agent.pool (getSet tab agent id val setflag).2.2.pool
      (tally (if setflag then [] else gained (getSet tab agent id val setflag).1
        (getSet tab agent id val setflag).2.1.blocks)) := by
  have denied : SnmpError.noSuchName ≠ .noError := by decide
  rw [getSet]
  split
  · rw [gained_error denied, ite_self]
    exact ledger_nothing
  split
  · rw [gained_error denied, ite_self]
    exact ledger_nothing
  · rename_i entry
    have member := frugal _ (mem_of_getElem? entry)
    cases setflag with
    | true =>
      rw [if_pos rfl]
      dsimp only
      split
      · exact ledger_nothing
      · rename_i set known
        split_ifs
        · exact ledger_nothing
        · exact member.set set known ..
        · exact ledger_nothing
        · exact ledger_nothing
        · exact ledger_nothing
        · exact member.set set known ..
    | false =>
      rw [if_neg Bool.false_ne_true]
      dsimp only
      split
      · exact ledger_nothing
      · rename_i get known
        split_ifs
        · exact ledger_nothing
        · exact ledger_callGet fun world => member.get get known ..
        · exact ledger_nothing
        · exact ledger_nothing
        · exact ledger_callGet fun world => member.get get known ..

theorem ledger_readNext (vp : Nat) {v : SnmpVar Device} (frugal : Frugal v) (args : List ULong) :
    Ledger agent.pool (readNext agent vp v args).2.pool
      (tally (readNext agent vp v args).1.blocks) := by
  rw [readNext]
  split
  · exact ledger_nothing
  · rename_i get known
    exact frugal.get get known ..

theorem ledger_nextRow (vp : Nat) {v : SnmpVar Device} (frugal : Frugal v) (nextflag : Bool)
    (args : List ULong) :
    Ledger agent.pool (nextRow agent vp v nextflag args).2.2.pool
      (tally (nextRow agent vp v nextflag args).1.blocks) := by
  rw [nextRow]
  split
  · exact ledger_readNext vp frugal []
  · exact ledger_readNext vp frugal _
  · exact ledger_nothing
  · rename_i known _
    exact frugal.next _ known ..

variable {pool : MemPool} (i : Nat) {val : Asn} {frame : Frame Device} {lost : List Block}
  {pool' : MemPool}

theorem ledger_makeOidn (enterprise : ULong) (id : List UChar) (index : List UShort) :
    Ledger pool (makeOidn pool enterprise id index).2
      (tally (makeOidn pool enterprise id index).1.blocks) :=
  ledger_leaf _ (fun _ => rfl) rfl

theorem ledger_nextLoop {entries : List (SnmpVar Device)} (frugal : ∀ v ∈ entries, Frugal v) :
    ∀ {agent : Agent Device} (vp : Nat) (nextflag : Bool) (load : SnmpType → List ULong)
      (i3 : ULong) (name : Asn),
      let result := nextLoop entries vp nextflag load i3 name agent
      Ledger agent.pool result.2.2.2.pool
        (tally (gained result.1 (result.2.1.blocks ++ result.2.2.1.blocks))) := by
  induction entries with
  | nil => exact fun _ _ _ _ _ => ledger_nothing
  | cons v entries ih =>
    intro agent vp nextflag load i3 name
    have later := fun v member => frugal v (mem_cons_of_mem _ member)
    have row := @ledger_nextRow _ agent vp v (frugal v mem_cons_self) nextflag (load v.type)
    rw [nextLoop]
    generalize nextRow agent vp v nextflag (load v.type) = found at row
    obtain ⟨val, args, agent'⟩ := found
    dsimp only
    split
    · refine (row.trans (ih later ..)).congr fun block => ?_
      simp [Asn.blocks]
    · have made := @ledger_makeOidn agent'.pool agent'.snmp.enterprise v.id
        (indexName v.type args)
      generalize makeOidn agent'.pool agent'.snmp.enterprise v.id
        (indexName v.type args) = oid at made
      obtain ⟨made_name, pool⟩ := oid
      split
      · rename_i failed
        cases failed
        refine (((row.trans made).trans (ledger_free val)).trans
          (@ih later { agent' with pool := val.free pool } ..)).congr fun block => ?_
        simp [Asn.blocks]
      · rename_i done
        cases done
        refine (row.trans made).congr fun block => ?_
        dsimp only
        rw [gained_noError, tally_append]
        omega

theorem ledger_next (frugal : FrugalTable tab) (id : List UShort) (name : Asn) (i3 : ULong) :
    let result := next tab agent id name i3
    Ledger agent.pool result.2.2.2.pool
      (tally (gained result.1 (result.2.1.blocks ++ result.2.2.1.blocks))) := by
  have loops := fun vp nextflag load => @ledger_nextLoop _ (tab.1.drop vp)
    (fun v member => frugal v (mem_of_mem_drop member)) agent vp nextflag load i3 name
  rw [next]
  dsimp only
  split
  · exact loops ..
  split
  · exact loops ..
  split_ifs
  · exact loops ..
  · exact loops ..
  · exact loops ..

/-- The part of `serveGetSet` in front of `add_pair`: the name and the value for the response. -/
def prepareGetSet (tab : SnmpTable Device) (i : Nat) (name val : Asn) (setflag : Bool) :
    Command (Frame Device) Exit (Asn × Asn) := do
  let id ← read .confused (oid? name)
  let (error_code, result) ← onAgent fun agent =>
    let (error_code, result, agent) := getSet tab agent id val setflag
    ((error_code, result), agent)
  onAgent fun agent => ((), agent.count (if setflag then .inTotalSetVars else .inTotalReqVars))
  if error_code ≠ .noError then .leave (.fatal error_code i)
  else do
    let name ← onPool name.copy
    let val ← if setflag then onPool val.copy else pure result
    return (name, val)

theorem serveGetSet_eq (name val : Asn) (setflag : Bool) :
    serveGetSet tab i name val setflag =
      prepareGetSet tab i name val setflag >>= fun pair => addPair i pair.1 pair.2 := by
  simp only [serveGetSet, prepareGetSet, bind_assoc]
  refine bind_congr fun id => bind_congr fun result => bind_congr fun _ => ?_
  split_ifs
  · rfl
  · simp only [bind_assoc, pure_bind]
  · simp only [bind_assoc, pure_bind]

/-- The part of `serveNext` in front of `add_pair`. -/
def prepareNext (tab : SnmpTable Device) (i3 : ULong) (tolerant : Bool) (i : Nat) (name : Asn) :
    Command (Frame Device) Exit (Asn × Asn) := do
  let id ← read .confused (oid? name)
  let (error_code, name, val) ← onAgent fun agent =>
    let (error_code, name, val, agent) := next tab agent id name i3
    ((error_code, name, val), agent)
  onAgent fun agent => ((), agent.count .inTotalReqVars)
  if error_code = .noSuchName ∧ tolerant then do
    let name ← onPool name.copy
    let val ← onPool fun pool => Asn.makeException pool .endOfMibView
    return (name, val)
  else if error_code ≠ .noError then .leave (.fatal error_code i)
  else return (name, val)

theorem serveNext_eq (i3 : ULong) (tolerant : Bool) (i : Nat) (name : Asn) :
    serveNext tab i3 tolerant i name =
      prepareNext tab i3 tolerant i name >>= fun pair => addPair i pair.1 pair.2 := by
  simp only [serveNext, prepareNext, bind_assoc]
  refine bind_congr fun id => bind_congr fun result => bind_congr fun _ => ?_
  split_ifs
  · simp only [bind_assoc, pure_bind]
  · rfl
  · simp only [pure_bind]

/-- The part of a turn in front of `add_pair`. -/
def prepare (tab : SnmpTable Device) (i3 : Turn → ULong) (request : Request) (turn : Turn) :
    Command (Frame Device) Exit (Asn × Asn) := do
  let pair ← fun frame => read .confused (pairOf request frame turn) frame
  let (name, val) ← read .confused (binding pair)
  match turn with
  | .first i =>
    if pair.type? ≠ some Asn.sequence.1 ∨ name.type? ≠ some asnOid then do
      onAgent fun agent => ((), agent.count .inAsnParseErrs)
      .leave .err
    else
      match request.kind with
      | .get => prepareGetSet tab i name val false
      | .set => prepareGetSet tab i name val true
      | .getNext | .getBulk => prepareNext tab (i3 turn) (request.version ≠ 0) i name
  | .again _ i => prepareNext tab (i3 turn) true i name

theorem serve_eq (i3 : Turn → ULong) (turn : Turn) :
    serve tab i3 request turn =
      prepare tab i3 request turn >>= fun pair => addPair turn.index pair.1 pair.2 := by
  rw [serve, prepare]
  refine Eq.trans ?_ (bind_assoc ..).symm
  refine @bind_congr (Command (Frame Device) Exit) _ _ _ _ _ _ fun pair => ?_
  rw [bind_assoc]
  refine bind_congr fun both => ?_
  cases turn with
  | first i =>
    dsimp only
    split_ifs
    · rfl
    · cases request.kind with
      | get => exact serveGetSet_eq ..
      | set => exact serveGetSet_eq ..
      | getNext | getBulk => exact serveNext_eq ..
  | again r i => exact serveNext_eq ..

section Owns

variable {start : MemPool} {outbind : Outbind} {held : List Block}

/-- From a state of the pool on, the blocks of a list are held besides those of the response. -/
structure Owns (start : MemPool) (outbind : Outbind) (held : List Block) (frame : Frame Device) :
    Prop where
  same : frame.outbind = outbind
  ledger : Ledger start frame.agent.pool (tally held)

/-- A command that holds some blocks in front, others behind, and none when it is left. -/
abbrev Holding {Result : Type} (start : MemPool) (outbind : Outbind) (held : List Block)
    (command : Command (Frame Device) Exit Result) (after : Result → List Block) : Prop :=
  Meets (Owns start outbind held) command (fun result => Owns start outbind (after result))
    fun _ => Owns start outbind []

theorem holding_onAgent {Result : Type} {function : Agent Device → Result × Agent Device}
    {extra : Result → List Block}
    (ledger : ∀ agent, Ledger agent.pool (function agent).2.pool
      (tally (extra (function agent).1))) :
    Holding start outbind held (onAgent function) fun result => held ++ extra result := by
  rintro frame ⟨same, before⟩
  exact ⟨same, (before.trans (ledger frame.agent)).congr fun block => tally_append ..⟩

theorem holding_onPool {function : MemPool → Asn × MemPool}
    (ledger : ∀ pool, Ledger pool (function pool).2 (tally (function pool).1.blocks)) :
    Holding start outbind held (onPool function : Command (Frame Device) Exit Asn)
      fun result => held ++ result.blocks :=
  holding_onAgent fun agent => ledger agent.pool

theorem holding_count (counter : Agent Device → SnmpCounter) :
    Holding start outbind held (onAgent fun agent : Agent Device =>
      ((), agent.count (counter agent)))
      fun _ => held := by
  rintro frame ⟨same, before⟩
  exact ⟨same, before⟩

theorem holding_read {Result : Type} (exit : Exit) (value : Option Result) :
    Holding start outbind [] (read exit value : Command (Frame Device) Exit Result)
    fun _ => [] := by
  cases value with
  | none => exact meets_leave fun _ before => before
  | some value => exact meets_pure fun _ before => before

theorem holding_pure {Result : Type} (result : Result) {after : Result → List Block}
    (same : after result = held) :
    Holding start outbind held (pure result : Command (Frame Device) Exit Result) after := by
  apply meets_pure
  intro frame owns
  rwa [same]

theorem holding_prepareGetSet (frugal : FrugalTable tab) (i : Nat) (name val : Asn)
    (setflag : Bool) :
    Holding start outbind [] (prepareGetSet tab i name val setflag) fun pair =>
      pair.1.blocks ++ pair.2.blocks := by
  rw [prepareGetSet]
  apply meets_bind (holding_read .confused (oid? name) : Holding start outbind [] _ fun _ => [])
  intro id
  apply meets_bind (holding_onAgent fun agent => ledger_getSet frugal id val setflag :
    Holding start outbind [] _ fun result : SnmpError × Asn =>
      [] ++ if setflag then [] else gained result.1 result.2.blocks)
  rintro ⟨error_code, result⟩
  apply meets_bind (holding_count (fun _ => _) : Holding start outbind _ _ fun _ => _)
  intro _
  dsimp only
  rw [nil_append]
  cases setflag with
  | true =>
    simp only [if_true]
    split_ifs with failed
    · exact meets_leave fun _ owns => owns
    · apply meets_bind (holding_onPool name.ledger_copy : Holding start outbind [] _ _)
      intro name
      apply meets_bind (holding_onPool val.ledger_copy : Holding start outbind _ _ _)
      intro val
      exact holding_pure _ rfl
  | false =>
    simp only [if_neg Bool.false_ne_true]
    split_ifs with failed
    · apply meets_leave
      intro frame owns
      rwa [gained_error failed] at owns
    · rw [not_not] at failed
      rw [failed, gained_noError]
      apply meets_bind (holding_onPool name.ledger_copy :
        Holding start outbind result.blocks _ _)
      intro name
      rw [pure_bind]
      apply meets_pure
      intro frame owns
      exact ⟨owns.same, owns.ledger.congr fun block => by simp [Int.add_comm]⟩

theorem holding_prepareNext (frugal : FrugalTable tab) (i3 : ULong) (tolerant : Bool) (i : Nat)
    (name : Asn) :
    Holding start outbind [] (prepareNext tab i3 tolerant i name) fun pair =>
      pair.1.blocks ++ pair.2.blocks := by
  rw [prepareNext]
  apply meets_bind (holding_read .confused (oid? name) : Holding start outbind [] _ fun _ => [])
  intro id
  apply meets_bind (holding_onAgent fun agent => ledger_next frugal id name i3 :
    Holding start outbind [] _ fun result : SnmpError × Asn × Asn =>
      [] ++ gained result.1 (result.2.1.blocks ++ result.2.2.blocks))
  rintro ⟨error_code, found, val⟩
  apply meets_bind (holding_count (fun _ => _) : Holding start outbind _ _ fun _ => _)
  intro _
  dsimp only
  rw [nil_append]
  split_ifs with absent failed
  · have denied : SnmpError.noSuchName ≠ .noError := by decide
    rw [absent.1, gained_error denied]
    apply meets_bind (holding_onPool found.ledger_copy : Holding start outbind [] _ _)
    intro name
    apply meets_bind (holding_onPool fun pool => Asn.ledger_makeException .endOfMibView :
      Holding start outbind _ _ _)
    intro val
    exact holding_pure _ rfl
  · apply meets_leave
    intro frame owns
    rwa [gained_error failed] at owns
  · rw [not_not] at failed
    rw [failed, gained_noError]
    exact holding_pure _ rfl

theorem holding_prepare (frugal : FrugalTable tab) (i3 : Turn → ULong) (turn : Turn) :
    Holding start outbind [] (prepare tab i3 request turn) fun pair =>
      pair.1.blocks ++ pair.2.blocks := by
  rw [prepare]
  have looks : Holding start outbind []
      (fun frame : Frame Device => read .confused (pairOf request frame turn) frame)
      fun _ => [] :=
    fun frame owns => holding_read .confused (pairOf request frame turn) frame owns
  apply meets_bind looks
  intro pair
  apply meets_bind (holding_read .confused (binding pair) : Holding start outbind [] _ fun _ => [])
  rintro ⟨name, val⟩
  cases turn with
  | first i =>
    dsimp only
    split_ifs
    · apply meets_bind (holding_count (fun _ => _) : Holding start outbind [] _ fun _ => [])
      exact fun _ => meets_leave fun _ owns => owns
    · cases request.kind with
      | get => exact holding_prepareGetSet frugal i name val false
      | set => exact holding_prepareGetSet frugal i name val true
      | getNext | getBulk => exact holding_prepareNext frugal (i3 _) _ i name
  | again r i => exact holding_prepareNext frugal (i3 _) true i name

end Owns

/-- `add_pair` has no name, no value, or no memory. -/
def AddFails (frame : Frame Device) (name val : Asn) : Prop :=
  name = .nil ∨ val = .nil ∨ frame.agent.pool.alloc.1 = none

/-- `add_pair` loses nothing: where it fails, it was given nothing that holds memory, and otherwise
the count of the pairs does not wrap around. -/
structure AddKeeps (frame : Frame Device) (name val : Asn) : Prop where
  fails : AddFails frame name val → name.blocks ++ val.blocks = []
  counts : ¬AddFails frame name val → frame.outbind.count ≠ 65535

/-- A turn loses nothing. -/
def TurnKeeps (tab : SnmpTable Device) (i3 : Turn → ULong) (request : Request) (turn : Turn)
    (frame : Frame Device) : Prop :=
  ∀ name val frame', prepare tab i3 request turn frame = (.ok (name, val), frame') →
    AddKeeps frame' name val

theorem addPair_fails {name : Asn} (fails : AddFails frame name val) :
    ∃ pool, Ledger frame.agent.pool pool (fun _ => 0) ∧
      addPair i name val frame =
        (.error (.fatal .genErr i), { frame with agent := { frame.agent with pool } }) := by
  rw [addPair.eq_def]
  split
  · exact ⟨_, ledger_same _, rfl⟩
  · exact ⟨_, ledger_same _, rfl⟩
  · rename_i named valued
    obtain nothing | nothing | denied := fails
    · exact absurd nothing named
    · exact absurd nothing valued
    · generalize answer : frame.agent.pool.alloc = granted at denied
      obtain ⟨block, pool⟩ := granted
      cases denied
      refine ⟨pool, ledger_alloc_none answer, ?_⟩
      simp only [bind, andThen, onPool, onAgent, act, answer]
      rfl

theorem addPair_goes {name : Asn} (goes : ¬AddFails frame name val) :
    ∃ block pool, frame.agent.pool.alloc = (some block, pool) ∧
      addPair i name val frame =
        if frame.outbind.size ≤ frame.outbind.count.toNat then
          (.error .overrun, { frame with agent := { frame.agent with pool } })
        else
          (.ok (), { agent := { frame.agent with pool }, outbind :=
            { frame.outbind with
              count := frame.outbind.count + 1
              arr := Asn.putAt frame.outbind.arr frame.outbind.count
                (.seq block Asn.sequence 2 [name, val]) } }) := by
  rw [AddFails, not_or, not_or] at goes
  obtain ⟨named, valued, memory⟩ := goes
  generalize answer : frame.agent.pool.alloc = granted at memory
  obtain ⟨_ | block, pool⟩ := granted
  · exact absurd rfl memory
  · refine ⟨block, pool, rfl, ?_⟩
    rw [addPair.eq_def]
    split
    · exact absurd rfl named
    · exact absurd rfl valued
    · simp only [bind, andThen, onPool, onAgent, act, answer]

/-- From a state of the pool on, the blocks of the response are held, and some that are lost. -/
structure Loses (start : MemPool) (lost : List Block) (frame : Frame Device) : Prop where
  within : frame.outbind.count.toNat ≤ frame.outbind.arr.length
  ledger : Ledger start frame.agent.pool fun block =>
    tally frame.outbind.node.blocks block + tally lost block

theorem exists_loses_addPair {start : MemPool} {name : Asn}
    (within : frame.outbind.count.toNat ≤ frame.outbind.arr.length)
    (ledger : Ledger start frame.agent.pool fun block =>
      tally frame.outbind.node.blocks block + tally lost block +
        tally (name.blocks ++ val.blocks) block) :
    ∃ lost', Loses start (lost ++ lost') (addPair i name val frame).2 ∧
      ((addPair i name val frame).1 ≠ .error .overrun →
        (lost' = [] ↔ AddKeeps frame name val)) := by
  rcases Classical.em (AddFails frame name val) with fails | goes
  · obtain ⟨pool, same, result⟩ := addPair_fails i fails
    rw [result]
    refine ⟨name.blocks ++ val.blocks, ⟨within, (ledger.trans same).congr fun block => ?_⟩,
      fun _ => ?_⟩
    · simp only [tally_append]
      omega
    · exact ⟨fun nothing => ⟨fun _ => nothing, absurd fails⟩, fun keeps => keeps.fails fails⟩
  · obtain ⟨block, pool, granted, result⟩ := addPair_goes i goes
    have all := ledger.trans (ledger_alloc_some granted)
    have two : Asn.blocksArr (2 : UShort).toNat [name, val] = name.blocks ++ val.blocks := by
      simp [Asn.blocksArr]
    rw [result]
    split_ifs with full
    · refine ⟨name.blocks ++ val.blocks ++ [block], ⟨within, all.congr fun block => ?_⟩,
        absurd rfl⟩
      simp only [tally_append]
      omega
    · rcases eq_or_ne frame.outbind.count 65535 with wraps | below
      · refine ⟨Asn.blocksArr frame.outbind.count.toNat frame.outbind.arr ++
          (name.blocks ++ val.blocks ++ [block]), ⟨Asn.putAt_length within,
            all.congr fun other => ?_⟩, fun _ => iff_of_false (by simp) ?_⟩
        · simp [Outbind.node, Asn.blocks, wraps, Asn.blocksArr]
          omega
        · exact fun keeps => keeps.counts goes wraps
      · refine ⟨[], ⟨Asn.putAt_length within, all.congr fun other => ?_⟩,
          fun _ => iff_of_true rfl ⟨fun fails => absurd fails goes, fun _ => below⟩⟩
        simp only [Outbind.node, Asn.blocks, Asn.blocksArr_putAt _ within below, two, tally_append,
          append_nil]
        omega

theorem exists_loses_serve (frugal : FrugalTable tab) (i3 : Turn → ULong) (request : Request)
    {start : MemPool} (turn : Turn) (lost : List Block) (frame : Frame Device)
    (loses : Loses start lost frame) :
    ∃ lost', Loses start (lost ++ lost') (serve tab i3 request turn frame).2 ∧
      ((serve tab i3 request turn frame).1 ≠ .error .overrun →
        (lost' = [] ↔ TurnKeeps tab i3 request turn frame)) := by
  obtain ⟨within, before⟩ := loses
  have prepares := @holding_prepare _ tab request _ frame.outbind frugal i3 turn frame
    ⟨rfl, ledger_same frame.agent.pool⟩
  have step : serve tab i3 request turn frame =
      andThen (prepare tab i3 request turn)
        (fun pair => addPair turn.index pair.1 pair.2) frame := by
    rw [serve_eq]
    rfl
  rw [step, andThen, TurnKeeps]
  generalize prepare tab i3 request turn frame = result at prepares ⊢
  obtain ⟨exit | ⟨name, val⟩, frame'⟩ := result
  · obtain ⟨same, ledger⟩ := prepares
    refine ⟨[], ⟨?_, (before.trans ledger).congr fun block => ?_⟩,
      fun _ => iff_of_true rfl fun _ _ _ impossible => ?_⟩
    · rwa [same]
    · simp [same]
    · cases impossible
  · obtain ⟨same, ledger⟩ := prepares
    obtain ⟨lost', after, keeps⟩ := @exists_loses_addPair _ turn.index val frame' lost start name
      (by rwa [same]) ((before.trans ledger).congr fun block => by rw [same])
    refine ⟨lost', after, fun goes => (keeps goes).trans ?_⟩
    constructor
    · intro kept _ _ _ prepared
      cases prepared
      exact kept
    · exact fun kept => kept name val frame' rfl

theorem tally_blocksArr_set {arr : List Asn} {n i : Nat} {old : Asn} (e : Asn) (inside : i < n)
    (found : arr[i]? = some old) (block : Block) :
    tally (Asn.blocksArr n (arr.set i e)) block =
      tally (Asn.blocksArr n arr) block - tally old.blocks block + tally e.blocks block := by
  induction arr generalizing n i with
  | nil => cases found
  | cons first arr ih =>
    obtain ⟨n, rfl⟩ := Nat.exists_eq_succ_of_ne_zero (Nat.ne_zero_of_lt inside)
    cases i with
    | zero =>
      cases found
      rw [set_cons_zero, Asn.blocksArr, Asn.blocksArr, tally_append, tally_append]
      omega
    | succ i =>
      have rest := ih (Nat.lt_of_succ_lt_succ inside) found
      rw [set_cons_succ, Asn.blocksArr, Asn.blocksArr, tally_append, tally_append]
      omega

theorem tally_response {b pdu : Asn} {snmp : Snmp} {community : List UChar}
    (authorised : Authorised b snmp request.block request.arr request.version community pdu)
    (accepted : AcceptedPdu pdu request) (status index : ULong) (bindings : Asn) (block : Block) :
    tally (request.response status index bindings).blocks block =
      tally b.blocks block - tally request.inbind.blocks block + tally bindings.blocks block := by
  obtain ⟨rfl, -, -, -, third, -⟩ := authorised
  obtain ⟨⟨type, rfl, -⟩, -, ⟨_, second⟩, ⟨_, third'⟩, inbind, -⟩ := accepted
  have number : (request.pduArr.set 1 (.integer request.statusBlock status))[2]? = some _ :=
    (List.getElem?_set_ne (by decide)).trans third'
  have list : ((request.pduArr.set 1 (.integer request.statusBlock status)).set 2
      (.integer request.indexBlock index))[3]? = some _ :=
    (List.getElem?_set_ne (by decide)).trans ((List.getElem?_set_ne (by decide)).trans inbind)
  have status_set := tally_blocksArr_set (.integer request.statusBlock status)
    (show 1 < (4 : UShort).toNat by decide) second block
  have index_set := tally_blocksArr_set (.integer request.indexBlock index)
    (show 2 < (4 : UShort).toNat by decide) number block
  have inbind_set := tally_blocksArr_set bindings (show 3 < (4 : UShort).toNat by decide) list block
  rw [Request.response]
  simp only [Asn.blocks, tally_append] at status_set index_set inbind_set ⊢
  rw [tally_blocksArr_set _ (show 2 < (3 : UShort).toNat by decide) third]
  simp only [Asn.blocks, tally_append, inbind_set]
  omega

variable {agent' : Agent Device} {i3 : Turn → ULong} {outsz : Nat} {output : Option (List UChar)}

theorem ledger_encodeReply {tree : Asn} {gain : Block → Int}
    {next : Option (List UChar) → Agent Device → Outcome × Agent Device}
    (ends : ∀ written, (next written agent).1 = .reply output →
      Ledger agent.pool (next written agent).2.pool gain)
    (replies : (encodeReply tree outsz agent next).1 = .reply output) :
    Ledger agent.pool (encodeReply tree outsz agent next).2.pool gain := by
  rw [encodeReply] at replies ⊢
  split at replies
  · exact ends _ replies
  · exact ends _ replies
  · cases replies

theorem ledger_replied {tree : Asn}
    (replies : (encodeReply tree outsz agent fun written agent =>
      (.reply written, (release tree agent).count .outPkts)).1 = .reply output) :
    Ledger agent.pool (encodeReply tree outsz agent fun written agent =>
      (.reply written, (release tree agent).count .outPkts)).2.pool fun block =>
        -tally tree.blocks block :=
  ledger_encodeReply (fun _ _ => ledger_free tree) replies

section Endings

variable {b pdu : Asn} {snmp : Snmp} {community : List UChar} {frame : Frame Device}

theorem ledger_finish
    (authorised : Authorised b snmp request.block request.arr request.version community pdu)
    (accepted : AcceptedPdu pdu request)
    (replies : (finish request outsz frame).1 = .reply output) :
    Ledger frame.agent.pool (finish request outsz frame).2.pool fun block =>
      -tally frame.outbind.node.blocks block - tally b.blocks block := by
  have response := tally_response authorised accepted
  apply ledger_encodeReply _ replies
  rintro (_ | bytes) replies
  · refine ((ledger_free frame.outbind.node).trans (ledger_replied replies)).congr fun block => ?_
    rw [response]
    omega
  · refine ((ledger_free request.inbind).trans (ledger_free _)).congr fun block => ?_
    rw [response]
    omega

theorem ledger_fatal
    (authorised : Authorised b snmp request.block request.arr request.version community pdu)
    (accepted : AcceptedPdu pdu request) (error_code : SnmpError) (i : Nat)
    (replies : (fatal request outsz error_code i frame).1 = .reply output) :
    Ledger frame.agent.pool (fatal request outsz error_code i frame).2.pool fun block =>
      -tally frame.outbind.node.blocks block - tally b.blocks block := by
  rw [fatal] at replies ⊢
  refine (@Ledger.trans _ _ _ (fun block => -tally frame.outbind.node.blocks block) _ ?_
    (ledger_replied replies)).congr fun block => ?_
  · split_ifs <;> exact ledger_free frame.outbind.node
  · rw [tally_response authorised accepted]
    omega

theorem Opens.unique {frame frame' : Frame Device} (opens : Opens request agent frame)
    (opens' : Opens request agent frame') : frame = frame' := by
  obtain ⟨granted, rfl, -⟩ := opens
  obtain ⟨granted', rfl, -⟩ := opens'
  cases granted.symm.trans granted'
  rfl

theorem exists_ledger_execute (frugal : FrugalTable tab) (i3 : Turn → ULong)
    (authorised : Authorised b snmp request.block request.arr request.version community pdu)
    (accepted : AcceptedPdu pdu request)
    (replies : (execute tab i3 request outsz agent).1 = .reply output) :
    ∃ lost, Ledger agent.pool (execute tab i3 request outsz agent).2.pool
        (fun block => tally lost block - tally b.blocks block) ∧
      (lost = [] ↔ ∀ frame turn frame', Opens request agent frame →
        Comes (serve tab i3 request) request.turns frame turn frame' →
          TurnKeeps tab i3 request turn frame') := by
  have response := tally_response authorised accepted
  generalize granted : agent.pool.alloc = answer
  obtain ⟨_ | block, pool⟩ := answer
  · have same : execute tab i3 request outsz agent = (.reply none,
        release (request.response 0 0 request.inbind)
          ({ agent with pool }.count .outTooBigs)) := by
      rw [execute, granted]
    rw [same]
    refine ⟨[], ((ledger_alloc_none granted).trans (ledger_free _)).congr fun block => ?_,
      iff_of_true rfl ?_⟩
    · rw [response, tally_nil]
      omega
    · intro frame turn frame' opens
      obtain ⟨granted', -, -⟩ := opens
      cases granted.symm.trans granted'
  · obtain ⟨frame, opens, start⟩ : ∃ frame, Opens request agent frame ∧
        Loses agent.pool [] frame := by
      rw [execute, granted] at replies
      dsimp only at replies
      split_ifs at replies with full
      refine ⟨_, .intro granted rfl full, Nat.le_refl 0,
        (ledger_alloc_some granted).congr fun block => ?_⟩
      simp [Outbind.node, Asn.blocks, Asn.blocksArr]
    obtain ⟨lost, ⟨-, ledger⟩, keeps⟩ := exists_each (exists_loses_serve frugal i3 request)
      request.turns start
    rw [execute_opens opens] at replies ⊢
    refine ⟨lost, ?_, ?_⟩
    · split at replies <;> rename_i loops <;> rw [loops] at ledger
      · refine (ledger.trans (ledger_finish authorised accepted replies)).congr fun block => ?_
        rw [nil_append]
        omega
      · refine ((ledger.trans (ledger_free _)).trans (ledger_free _)).congr fun block => ?_
        rw [nil_append, response]
        dsimp only
        omega
      · refine (ledger.trans (ledger_fatal authorised accepted _ _ replies)).congr fun block => ?_
        rw [nil_append]
        omega
      · cases replies
      · cases replies
    · have goes : (each request.turns (serve tab i3 request) frame).1 ≠ .error .overrun := by
        intro overrun
        split at replies <;> rename_i loops <;> rw [loops] at overrun <;> cases overrun
        cases replies
      rw [keeps goes]
      constructor
      · intro kept frame' turn frame'' opens'
        rw [opens'.unique opens]
        exact kept turn frame''
      · exact fun kept turn frame' => kept frame turn frame' opens

end Endings

/-- Every block that was allocated between two states of a pool was released once, and no other
one. -/
def Clean (pool pool' : MemPool) : Prop :=
  ∃ events, pool'.log = pool.log ++ events ∧ ∀ block,
    events.count (.alloc block) ≤ 1 ∧ events.count (.free block) = events.count (.alloc block)

/-- No block was released twice, or without an allocation. -/
def FreedOnce (pool pool' : MemPool) : Prop :=
  ∃ events, pool'.log = pool.log ++ events ∧ ∀ block,
    events.count (.alloc block) ≤ 1 ∧ events.count (.free block) ≤ events.count (.alloc block)

theorem freedOnce_of_ledger (ledger : Ledger pool pool' (tally lost)) : FreedOnce pool pool' := by
  obtain ⟨-, events, log, sums, once⟩ := ledger
  refine ⟨events, log, fun block => ⟨(once block).1, ?_⟩⟩
  have := sums block
  have := tally_nonneg lost block
  omega

theorem clean_iff_of_ledger (ledger : Ledger pool pool' (tally lost)) :
    Clean pool pool' ↔ lost = [] := by
  obtain ⟨-, events, log, sums, once⟩ := ledger
  constructor
  · rintro ⟨events', log', clean⟩
    obtain rfl := append_cancel_left (log.symm.trans log')
    apply eq_nil_of_tally
    intro block
    have := sums block
    have := (clean block).2
    omega
  · rintro rfl
    refine ⟨events, log, fun block => ⟨(once block).1, ?_⟩⟩
    have := sums block
    rw [tally_nil] at this
    omega

/-- A request is executed without a loss: no node that holds memory is lost while it is parsed, and
no turn loses a name or a value. -/
structure Keeps (tab : SnmpTable Device) (i3 : Turn → ULong) (agent : Agent Device)
    (input : List UChar) : Prop where
  parse : Asn.ParseKeeps input.length agent.pool input
  turns : ∀ request frame turn frame', Enters agent input request frame →
    Comes (serve tab i3 request) request.turns frame turn frame' →
      TurnKeeps tab i3 request turn frame'

theorem exists_ledger_snmpExecute (frugal : FrugalTable tab) (i3 : Turn → ULong)
    {input : List UChar} (addressable : input.length < 2 ^ 32)
    (replies : (snmpExecute tab i3 agent input outsz).1 = .reply output) :
    ∃ lost, Ledger agent.pool (snmpExecute tab i3 agent input outsz).2.pool (tally lost) ∧
      (lost = [] ↔ Keeps tab i3 agent input) := by
  have same : (received agent).pool = agent.pool := rfl
  obtain ⟨lost, ledger, keeps⟩ : ∃ lost, Ledger agent.pool (Asn.parse agent.pool input).2
      (fun other => tally (Asn.gotBlocks (Asn.parse agent.pool input).1) other + tally lost other) ∧
      (lost = [] ↔ Asn.ParseKeeps input.length agent.pool input) :=
    (Asn.ledger_parse input.length).1 (Nat.le_succ _)
  have unentered : (∀ request frame, ¬Enters agent input request frame) →
      (lost = [] ↔ Keeps tab i3 agent input) := fun none =>
    keeps.trans ⟨fun parse => ⟨parse, fun request frame _ _ enters => absurd enters (none _ _)⟩,
      Keeps.parse⟩
  rw [snmpExecute, same] at replies ⊢
  generalize parsed : Asn.parse agent.pool input = answer at ledger replies ⊢
  obtain ⟨_ | ⟨b, rest⟩, pool⟩ := answer
  · refine ⟨lost, ledger.congr fun block => by simp [Asn.gotBlocks], unentered ?_⟩
    rintro request frame ⟨b, rest, pool, agent', parsed', -⟩
    cases parsed.symm.trans parsed'
  · have checks := @checks_accept _ { received agent with pool } _
      ((Asn.holds_parse _).1 addressable parsed)
    dsimp only at replies ⊢
    generalize checked : accept b { received agent with pool } = result at replies checks ⊢
    obtain ⟨refusal | request, agent'⟩ := result
    · cases refusal with
      | confused => cases replies
      | refused =>
        have released : (release b agent').pool = b.free pool := by
          rw [release, show agent'.pool = pool from checks.2.pool]
        refine ⟨lost, ?_, unentered ?_⟩
        · rw [released]
          exact (ledger.trans (ledger_free b)).congr fun block => by simp [Asn.gotBlocks]
        · rintro request frame ⟨b, rest, pool, agent', parsed', accepted, -⟩
          cases parsed.symm.trans parsed'
          cases checked.symm.trans accepted
    · obtain ⟨⟨community, pdu, authorised, accepted⟩, untouched⟩ := checks
      have pool_same : agent'.pool = pool := untouched.pool
      obtain ⟨lost', ledger', keeps'⟩ := exists_ledger_execute frugal i3 authorised accepted replies
      rw [pool_same] at ledger'
      refine ⟨lost ++ lost', (ledger.trans ledger').congr fun block => ?_, ?_⟩
      · rw [tally_append]
        dsimp only [Asn.gotBlocks]
        omega
      · rw [append_eq_nil_iff, keeps, keeps']
        constructor
        · rintro ⟨parse, turns⟩
          refine ⟨parse, ?_⟩
          rintro request' frame turn frame' ⟨b', rest', pool', agent'', parsed', accepted', opens⟩
          cases parsed.symm.trans parsed'
          cases checked.symm.trans accepted'
          exact turns frame turn frame' opens
        · exact fun kept => ⟨kept.parse, fun frame turn frame' opens =>
            kept.turns request frame turn frame' ⟨b, rest, pool, agent', parsed, checked, opens⟩⟩

/-- Whatever memory is denied, nothing is released twice, and everything that was allocated is
released if and only if the request is executed without a loss. -/
theorem snmpExecute_clean_iff (frugal : FrugalTable tab) {input : List UChar}
    (addressable : input.length < 2 ^ 32)
    (replies : (snmpExecute tab i3 agent input outsz).1 = .reply output) :
    (Clean agent.pool (snmpExecute tab i3 agent input outsz).2.pool ↔ Keeps tab i3 agent input) ∧
      FreedOnce agent.pool (snmpExecute tab i3 agent input outsz).2.pool := by
  obtain ⟨lost, ledger, keeps⟩ := exists_ledger_snmpExecute frugal i3 addressable replies
  exact ⟨(clean_iff_of_ledger ledger).trans keeps, freedOnce_of_ledger ledger⟩

def allocatedColumn : SnmpVar Unit where
  id := [2, 1]
  idlen_lt := column.idlen_lt
  type := .tab4
  get := some fun _ world =>
    match world.pool.alloc with
    | (none, pool) => (.nil, { world with pool })
    | (some block, pool) => (.integer block 5, { world with pool })
  next := none
  set := none

def allocatedColumns : SnmpTable Unit :=
  ⟨[allocatedColumn], by decide⟩

theorem frugalTable_allocatedColumns : FrugalTable allocatedColumns := by
  intro v member
  obtain rfl := mem_singleton.mp member
  constructor
  · rintro get known args world
    cases known
    dsimp only
    split
    · rename_i denied
      exact ledger_alloc_none denied
    · rename_i granted
      exact ledger_alloc_some granted
  · rintro next known
    cases known
  · rintro set known
    cases known

def denying (number : Nat) : Agent Unit :=
  initial 9 { grants := fun request => request ≠ number } ()

def getColumn (agent : Agent Unit) : Outcome × Agent Unit :=
  snmpExecute allocatedColumns (fun _ => 0) agent publicGet 100

theorem clean_of_log (n : Nat) (start : pool.log = []) (small : ∀ event ∈ pool'.log,
      event ∈ (List.range n).map MemEvent.alloc ++ (List.range n).map MemEvent.free)
    (counts : ∀ block < n, pool'.log.count (.alloc block) ≤ 1 ∧
      pool'.log.count (.free block) = pool'.log.count (.alloc block)) : Clean pool pool' := by
  refine ⟨pool'.log, by rw [start, nil_append], fun block => ?_⟩
  rcases Nat.lt_or_ge block n with inside | outside
  · exact counts block inside
  · have unallocated : pool'.log.count (.alloc block) = 0 :=
      count_eq_zero.mpr fun member => by
        have := small _ member
        simp at this
        omega
    have unreleased : pool'.log.count (.free block) = 0 :=
      count_eq_zero.mpr fun member => by
        have := small _ member
        simp at this
        omega
    rw [unallocated, unreleased]
    exact ⟨Nat.zero_le 1, rfl⟩

theorem unclean_of_log {block : Block} (start : pool.log = [])
    (allocated : pool'.log.count (.alloc block) = 1) (kept : pool'.log.count (.free block) = 0) :
    ¬Clean pool pool' := by
  rintro ⟨events, log, clean⟩
  rw [start, nil_append] at log
  have := (clean block).2
  rw [← log, allocated, kept] at this
  cases this

theorem keeps_getColumn :
    Keeps allocatedColumns (fun _ => 0) (initial 9 Asn.plenty ()) publicGet := by
  have replies : (getColumn (initial 9 Asn.plenty ())).1 = .reply (some
      [48, 36, 2, 1, 0, 4, 6, 112, 117, 98, 108, 105, 99, 162, 23, 2, 1, 7, 2, 1, 0, 2,
        1, 0, 48, 12,
        48, 10, 6, 5, 81, 10, 0, 0, 1, 2, 1, 5]) := by
    decide +kernel
  have clean := @clean_of_log (initial 9 Asn.plenty ()).pool
    (getColumn (initial 9 Asn.plenty ())).2.pool 14 rfl (by decide +kernel) (by decide +kernel)
  rw [getColumn] at replies clean
  exact (snmpExecute_clean_iff frugalTable_allocatedColumns (by decide) replies).1.mp clean

/-- Without memory for the pair of the response, the copy of the name and the value are lost. -/
theorem getColumn_leaks :
    FrugalTable allocatedColumns ∧ (∃ output, (getColumn (denying 13)).1 = .reply output) ∧
      ¬Clean (denying 13).pool (getColumn (denying 13)).2.pool := by
  have replies :
      (getColumn (denying 13)).1 = .reply (some [48, 35, 2, 1, 0, 4, 6, 112, 117, 98, 108,
      105, 99, 162, 22, 2, 1, 7, 2, 1, 5, 2, 1, 1, 48, 11, 48, 9, 6, 5, 81, 10, 0, 0, 1,
      5, 0]) := by
    decide +kernel
  exact ⟨frugalTable_allocatedColumns, ⟨_, replies⟩,
    @unclean_of_log _ _ 11 rfl (by decide +kernel) (by decide +kernel)⟩

end Snmp
end Uos
