import Mathlib.Data.List.Induction
import Uos.Snmp.Shapes

/-!
# Room for the response

How many pairs `snmp_execute` puts into the list of the response, and how many the block that
`asn_make_seq` allocated has room for.
-/

namespace Uos

open List BitVec

namespace Snmp

open Command

variable {Device : Type} {tab : SnmpTable Device} {request : Request} {i3 : Turn → ULong}

section Adding

variable {First : Type}

/-- A command that adds nothing to the list of the response. -/
abbrev Still (command : Command (Frame Device) Exit First) : Prop :=
  ∀ outbind, Meets (fun frame => frame.outbind = outbind) command
    (fun _ frame => frame.outbind = outbind) fun exit _ => exit ≠ .overrun

/-- A command that adds one pair to the list of the response, or is left. -/
abbrev AddsOne (command : Command (Frame Device) Exit Unit) : Prop :=
  ∀ outbind, Meets (fun frame => frame.outbind = outbind) command
    (fun _ frame => outbind.count.toNat < outbind.size ∧ frame.outbind.size = outbind.size ∧
      frame.outbind.count = outbind.count + 1)
    fun exit _ => exit = .overrun → outbind.size ≤ outbind.count.toNat

theorem still_onAgent (function : Agent Device → First × Agent Device) : Still (onAgent function) :=
  fun _ => meets_act fun _ before => before

theorem still_onPool (function : MemPool → First × MemPool) :
    Still (onPool function : Command (Frame Device) Exit First) :=
  still_onAgent _

theorem still_read (value : Option First) :
    Still (read .confused value : Command (Frame Device) Exit First) := by
  cases value with
  | none => exact fun _ => meets_leave fun _ _ => by decide
  | some value => exact fun _ => meets_pure fun _ before => before

theorem addsOne_leave {exit : Exit} (other : exit ≠ .overrun) :
    AddsOne (leave exit : Command (Frame Device) Exit Unit) :=
  fun _ => meets_leave fun _ _ same => absurd same other

theorem addsOne_bind {command : Command (Frame Device) Exit First}
    {next : First → Command (Frame Device) Exit Unit} (first : Still command)
    (second : ∀ value, AddsOne (next value)) : AddsOne (command >>= next) := by
  intro outbind
  have start := meets_weaken (first outbind) (fun _ before => before)
    (fun _ _ after => after)
    (fun _ _ other same => absurd same other : ∀ exit (_ : Frame Device), exit ≠ Exit.overrun →
      exit = Exit.overrun → outbind.size ≤ outbind.count.toNat)
  exact meets_bind start fun value => second value outbind

theorem addsOne_addPair (i : Nat) (name val : Asn) :
    AddsOne (addPair i name val : Command (Frame Device) Exit Unit) := by
  rw [addPair.eq_def]
  split
  · exact addsOne_leave Exit.noConfusion
  · exact addsOne_leave Exit.noConfusion
  · apply addsOne_bind (still_onPool _)
    intro block
    cases block with
    | none => exact addsOne_leave Exit.noConfusion
    | some block =>
      rintro outbind frame rfl
      dsimp only
      split_ifs with full
      · exact fun _ => full
      · exact ⟨Nat.lt_of_not_le full, rfl, rfl⟩

theorem addsOne_serveGetSet (i : Nat) (name val : Asn) (setflag : Bool) :
    AddsOne (serveGetSet tab i name val setflag) := by
  apply addsOne_bind (still_read _)
  intro id
  apply addsOne_bind (still_onAgent _)
  rintro ⟨error_code, result⟩
  apply addsOne_bind (still_onAgent _)
  intro _
  dsimp only
  split_ifs
  · exact addsOne_leave Exit.noConfusion
  · apply addsOne_bind (still_onPool _)
    intro name
    apply addsOne_bind (still_onPool _)
    exact fun val => addsOne_addPair i name val
  · apply addsOne_bind (still_onPool _)
    exact fun name => addsOne_addPair i name result

theorem addsOne_serveNext (i3 : ULong) (tolerant : Bool) (i : Nat) (name : Asn) :
    AddsOne (serveNext tab i3 tolerant i name) := by
  apply addsOne_bind (still_read _)
  intro id
  apply addsOne_bind (still_onAgent _)
  rintro ⟨error_code, found, val⟩
  apply addsOne_bind (still_onAgent _)
  intro _
  split_ifs
  · apply addsOne_bind (still_onPool _)
    intro name
    apply addsOne_bind (still_onPool _)
    exact fun val => addsOne_addPair i name val
  · exact addsOne_leave Exit.noConfusion
  · exact addsOne_addPair i found val

theorem addsOne_serve (tab : SnmpTable Device) (i3 : Turn → ULong) (request : Request)
    (turn : Turn) : AddsOne (serve tab i3 request turn) := by
  have look : Still fun frame : Frame Device =>
      (read .confused (pairOf request frame turn) : Command (Frame Device) Exit Asn) frame :=
    fun outbind frame before => still_read _ outbind frame before
  apply addsOne_bind look
  intro pair
  apply addsOne_bind (still_read _)
  rintro ⟨name, val⟩
  cases turn with
  | first i =>
    dsimp only
    split_ifs
    · apply addsOne_bind (still_onAgent _)
      exact fun _ => addsOne_leave Exit.noConfusion
    · cases request.kind with
      | get => exact addsOne_serveGetSet i name val false
      | set => exact addsOne_serveGetSet i name val true
      | getNext | getBulk => exact addsOne_serveNext (i3 _) _ i name
  | again r i => exact addsOne_serveNext (i3 _) true i name

end Adding

section Positions

/-- The number of the bindings of a request that are repeated. -/
def Request.repeated (request : Request) : Nat :=
  request.inCount.toNat - request.nonrepeaters.toNat

/-- A request asks for repetitions. -/
def Request.Repeats (request : Request) : Prop :=
  request.kind = .getBulk ∧ request.version ≠ 0

instance (request : Request) : Decidable request.Repeats :=
  inferInstanceAs (Decidable (_ ∧ _))

theorem getElem?_rounds (rounds start size k : Nat) :
    ((List.range rounds).flatMap fun r => (List.range' start size).map (Turn.again r))[k]? =
      if k < rounds * size then some (Turn.again (k / size) (start + k % size)) else none := by
  induction rounds with
  | zero => simp
  | succ rounds ih =>
    have length : ((List.range rounds).flatMap fun r =>
        (List.range' start size).map (Turn.again r)).length = rounds * size := by
      simp [length_flatMap]
    rw [range_succ, flatMap_append, flatMap_singleton]
    rcases Nat.lt_or_ge k (rounds * size) with early | late
    · rw [List.getElem?_append_left (by omega), ih, if_pos early, if_pos]
      rw [Nat.succ_mul]
      omega
    · rw [List.getElem?_append_right (by omega), length, List.getElem?_map, Nat.succ_mul]
      rcases Nat.lt_or_ge k (rounds * size + size) with inside | behind
      · have within : k - rounds * size < size := by omega
        have whole : k = (k - rounds * size) + size * rounds := by
          rw [Nat.mul_comm size rounds]
          omega
        have quotient : k / size = rounds := by
          rw [whole, Nat.add_mul_div_left _ _ (by omega), Nat.div_eq_of_lt within, Nat.zero_add]
        have remainder : k % size = k - rounds * size := by
          conv_lhs => rw [whole]
          rw [Nat.add_mul_mod_self_left, Nat.mod_eq_of_lt within]
        rw [if_pos inside, List.getElem?_range' within, quotient, remainder]
        simp
      · rw [if_neg (by omega), List.getElem?_eq_none]
        · rfl
        · rw [length_range']
          omega

theorem getElem?_turns (request : Request) (k : Nat) :
    request.turns[k]? =
      if k < request.nonrepeaters.toNat then some (.first k)
      else if request.Repeats ∧
          k - request.nonrepeaters.toNat < request.repetitions.toNat * request.repeated then
        some (.again ((k - request.nonrepeaters.toNat) / request.repeated)
          (request.nonrepeaters.toNat + (k - request.nonrepeaters.toNat) % request.repeated))
      else none := by
  have length : ((List.range request.nonrepeaters.toNat).map Turn.first).length =
      request.nonrepeaters.toNat := by simp
  rw [Request.turns]
  rcases Nat.lt_or_ge k request.nonrepeaters.toNat with early | late
  · rw [List.getElem?_append_left (by omega), if_pos early, List.getElem?_map,
      List.getElem?_range early]
    rfl
  · rw [List.getElem?_append_right (by omega), length, if_neg (Nat.not_lt.mpr late)]
    change (if request.Repeats then _ else _ : List Turn)[_]? = _
    split
    · rename_i asked
      rw [getElem?_rounds]
      simp only [asked, true_and]
      rfl
    · rename_i none
      rw [if_neg (fun both => none both.1)]
      rfl

theorem length_turns (request : Request) : request.turns.length =
    request.nonrepeaters.toNat +
      if request.Repeats then request.repetitions.toNat * request.repeated else 0 := by
  rw [Request.turns, length_append, length_map, length_range]
  congr 1
  change (if request.Repeats then _ else _ : List Turn).length = _
  split
  · simp [length_flatMap, Request.repeated]
  · rfl

theorem first_position {before after : List Turn} {i : Nat}
    (split : request.turns = before ++ .first i :: after) : i < request.nonrepeaters.toNat := by
  have here : request.turns[before.length]? = some (.first i) := by
    rw [split, List.getElem?_append_right le_rfl, Nat.sub_self]
    rfl
  rw [getElem?_turns] at here
  split_ifs at here with early
  · cases here
    exact early
  · cases here

theorem again_position {before after : List Turn} {r i : Nat}
    (split : request.turns = before ++ .again r i :: after) :
    request.Repeats ∧ ∃ j < request.repeated, i = request.nonrepeaters.toNat + j ∧
      r < request.repetitions.toNat ∧
      before.length = request.nonrepeaters.toNat + r * request.repeated + j := by
  have here : request.turns[before.length]? = some (.again r i) := by
    rw [split, List.getElem?_append_right le_rfl, Nat.sub_self]
    rfl
  rw [getElem?_turns] at here
  split_ifs at here with early late
  · cases here
  · obtain ⟨repeats, within⟩ := late
    obtain ⟨rfl, rfl⟩ := Turn.again.inj (Option.some.inj here)
    have positive : 0 < request.repeated := by
      apply Nat.pos_of_ne_zero
      intro none
      rw [none, Nat.mul_zero] at within
      omega
    refine ⟨repeats, _, Nat.mod_lt _ positive, rfl, Nat.div_lt_of_lt_mul ?_, ?_⟩
    · rw [Nat.mul_comm]
      exact within
    · have whole := Nat.div_add_mod (before.length - request.nonrepeaters.toNat) request.repeated
      rw [Nat.mul_comm] at whole
      omega

end Positions

/-- The numbers of a request: its type, whether it is of version 2, the number of its bindings, and
the two numbers in front of them. -/
structure RequestNumbers where
  kind : RequestKind
  version2 : Bool
  count : UShort
  status : ULong
  index : ULong

namespace RequestNumbers

variable (n : RequestNumbers)

def nonrepeaters : Nat :=
  (repeats n.kind n.count n.status n.index).1.toNat

def repetitions : Nat :=
  (repeats n.kind n.count n.status n.index).2.toNat

def pairs : Nat :=
  n.nonrepeaters +
    if n.kind = .getBulk ∧ n.version2 = true then
      n.repetitions * (n.count.toNat - n.nonrepeaters)
    else 0

/-- How many pointers the block has room for that `asn_make_seq` asks for: its size in bytes is
taken modulo `2 ^ 32`. -/
def slots : Nat :=
  (n.nonrepeaters + (n.count.toNat - n.nonrepeaters) * n.repetitions) % 2 ^ 30

/-- There is room for all pairs, and the count does not wrap. -/
def Roomy : Prop :=
  n.slots ≠ 2 ^ 30 - 1 ∧ n.pairs ≤ n.slots ∧ n.pairs ≤ 65535

instance : Decidable n.Roomy :=
  inferInstanceAs (Decidable (_ ∧ _))

end RequestNumbers

/-- A request has these numbers. -/
structure Request.HasNumbers (request : Request) (n : RequestNumbers) : Prop where
  kind : request.kind = n.kind
  version : request.version = if n.version2 then 1 else 0
  count : request.inCount = n.count
  repeats : (request.nonrepeaters, request.repetitions) = repeats n.kind n.count n.status n.index

def Request.slots (request : Request) : Nat :=
  (request.nonrepeaters + (request.inCount.setWidth 32 - request.nonrepeaters) *
    request.repetitions).toNat % 2 ^ 30

/-- The loops stay within the block of the response. -/
structure Fits (tab : SnmpTable Device) (i3 : Turn → ULong) (request : Request)
    (agent : Agent Device) : Prop where
  /-- `asn_make_seq` clears no more than its block. -/
  cleared : agent.pool.alloc.1.isSome → request.slots ≠ 2 ^ 30 - 1
  added : ∀ frame, Opens request agent frame →
    (each request.turns (serve tab i3 request) frame).1 ≠ .error .overrun
  /-- Every turn that goes on adds a pair, and the count is their number. -/
  counted : ∀ frame before after frame', Opens request agent frame →
    request.turns = before ++ after →
      each before (serve tab i3 request) frame = (.ok (), frame') →
        frame'.outbind.count.toNat = before.length
  /-- The binding of the round before is below the count. -/
  fetched : ∀ frame before r i after frame', Opens request agent frame →
    request.turns = before ++ .again r i :: after →
      each before (serve tab i3 request) frame = (.ok (), frame') → r ≠ 0 →
        (request.earlier r i).toNat < frame'.outbind.count.toNat

section Enough

variable {n : RequestNumbers} {agent : Agent Device}

theorem repeats_spec (kind : RequestKind) (count : UShort) (status index : ULong) :
    (repeats kind count status index).1.toNat ≤ count.toNat ∧
      (kind ≠ .getBulk → (repeats kind count status index).1.toNat = count.toNat ∧
        (repeats kind count status index).2.toNat = 0) := by
  have all : (count.setWidth 32).toNat = count.toNat := by
    have bound := count.isLt
    rw [toNat_setWidth]
    omega
  have pick (nonrepeaters repetitions : ULong) (few : nonrepeaters.toNat ≤ count.toNat) :
      (if nonrepeaters = 0 ∧ repetitions = 0 then (count.setWidth 32, repetitions)
        else (nonrepeaters, repetitions)).1.toNat ≤ count.toNat := by
    split
    · exact all.le
    · exact few
  rw [repeats]
  split
  · rename_i bulk
    refine ⟨pick _ _ ?_, fun other => absurd bulk other⟩
    split
    · exact Nat.zero_le _
    · split
      · exact all.le
      · rename_i low high
        rw [toInt_eq_toNat_cond] at low high
        split at low <;> omega
  · exact ⟨all.le, fun _ => ⟨all, rfl⟩⟩

theorem Request.HasNumbers.spec (numbers : request.HasNumbers n) :
    request.nonrepeaters.toNat = n.nonrepeaters ∧ request.repetitions.toNat = n.repetitions ∧
      n.nonrepeaters ≤ n.count.toNat ∧ request.repeated = n.count.toNat - n.nonrepeaters := by
  obtain ⟨first, second⟩ := Prod.mk.inj numbers.repeats
  have few := (repeats_spec n.kind n.count n.status n.index).1
  refine ⟨congrArg BitVec.toNat first, congrArg BitVec.toNat second, few, ?_⟩
  rw [Request.repeated, numbers.count, first]
  rfl

theorem span_toNat (numbers : request.HasNumbers n) :
    (request.inCount.setWidth 32 - request.nonrepeaters).toNat = request.repeated := by
  obtain ⟨first, -, few, -⟩ := numbers.spec
  have bound := request.inCount.isLt
  have bound' := request.nonrepeaters.isLt
  rw [← first, ← numbers.count] at few
  rw [toNat_sub, toNat_setWidth, Request.repeated]
  omega

theorem slots_eq (numbers : request.HasNumbers n) : request.slots = n.slots := by
  obtain ⟨first, second, -, span⟩ := numbers.spec
  rw [Request.slots, toNat_add, toNat_mul, span_toNat numbers, first, second, span,
    RequestNumbers.slots]
  omega

theorem pairs_eq (numbers : request.HasNumbers n) : request.turns.length = n.pairs := by
  obtain ⟨first, second, -, span⟩ := numbers.spec
  have same : request.Repeats ↔ n.kind = .getBulk ∧ n.version2 = true := by
    rw [Request.Repeats, numbers.kind, numbers.version]
    cases n.version2 <;> simp
  rw [length_turns, RequestNumbers.pairs, first, second, span]
  simp only [same]

theorem run_counts {before : List Turn} {frame frame' : Frame Device}
    (runs : each before (serve tab i3 request) frame = (.ok (), frame')) :
    frame'.outbind.size = frame.outbind.size ∧
      frame'.outbind.count = frame.outbind.count + .ofNat 16 before.length := by
  induction before generalizing frame with
  | nil =>
    obtain rfl := (Prod.mk.inj runs).2
    exact ⟨rfl, (BitVec.add_zero _).symm⟩
  | cons turn before ih =>
    have step := addsOne_serve tab i3 request turn frame.outbind frame rfl
    rw [show each (turn :: before) (serve tab i3 request) frame =
      andThen (serve tab i3 request turn) (fun _ => each before (serve tab i3 request)) frame
        from rfl, andThen] at runs
    split at runs
    · rename_i value frame'' goes
      rw [goes] at step
      obtain ⟨-, size, count⟩ := step
      obtain ⟨size', count'⟩ := ih runs
      refine ⟨size'.trans size, ?_⟩
      rw [count', count, length_cons, BitVec.add_assoc, Nat.add_comm before.length,
        ofNat_add]
      rfl
    · cases runs

theorem Opens.outbind {frame : Frame Device} (opens : Opens request agent frame) :
    frame.outbind.size = request.slots ∧ frame.outbind.count = 0 := by
  obtain ⟨-, rfl, -⟩ := opens
  exact ⟨rfl, rfl⟩

theorem opens_counts {before : List Turn} {frame frame' : Frame Device}
    (opens : Opens request agent frame)
    (runs : each before (serve tab i3 request) frame = (.ok (), frame')) :
    frame'.outbind.size = request.slots ∧
      frame'.outbind.count.toNat = before.length % 65536 := by
  obtain ⟨size, count⟩ := opens.outbind
  obtain ⟨size', count'⟩ := run_counts runs
  refine ⟨size'.trans size, ?_⟩
  rw [count', count, show (0 : UShort) = 0#16 from rfl, BitVec.zero_add, toNat_ofNat]

theorem earlier_toNat (numbers : request.HasNumbers n) {r j : Nat}
    (small : request.nonrepeaters.toNat + j + (r - 1) * request.repeated < 2 ^ 32) :
    (request.earlier r (request.nonrepeaters.toNat + j)).toNat =
      request.nonrepeaters.toNat + j + (r - 1) * request.repeated := by
  rw [Request.earlier, toNat_add, toNat_mul, span_toNat numbers, toNat_ofNat,
    toNat_ofNat, ← Nat.mod_eq_of_lt small]
  simp [Nat.add_mod, Nat.mul_mod]

theorem fits_of_roomy (numbers : request.HasNumbers n) (roomy : n.Roomy) :
    Fits tab i3 request agent := by
  obtain ⟨clear, room, low⟩ := roomy
  have length := pairs_eq numbers
  have slots := slots_eq numbers
  have counted {frame frame' : Frame Device} {before after : List Turn}
      (opens : Opens request agent frame) (split : request.turns = before ++ after)
      (runs : each before (serve tab i3 request) frame = (.ok (), frame')) :
      before.length ≤ n.pairs ∧ frame'.outbind.count.toNat = before.length := by
    have prefix_le : before.length ≤ n.pairs := by
      rw [← length, split, length_append]
      omega
    refine ⟨prefix_le, ?_⟩
    rw [(opens_counts opens runs).2, Nat.mod_eq_of_lt (by omega)]
  refine ⟨fun _ => slots ▸ clear, fun frame opens leaves => ?_,
    fun frame before after frame' opens split runs => (counted opens split runs).2,
    fun frame before r i after frame' opens split runs again => ?_⟩
  · obtain ⟨turn, frame', comes, overrun⟩ := each_leaves_iff.mp leaves
    obtain ⟨before, after, split, runs⟩ := comes.split
    have full := addsOne_serve tab i3 request turn frame'.outbind frame' rfl
    have count := (counted opens split runs).2
    have size := (opens_counts opens runs).1
    have longer : before.length < n.pairs := by
      rw [← length, split, length_append, length_cons]
      omega
    generalize serve tab i3 request turn frame' = result at overrun full
    obtain ⟨exit | value, frame''⟩ := result
    · obtain rfl := Except.error.inj overrun
      have full := full rfl
      omega
    · cases overrun
  · obtain ⟨-, j, inside, rfl, -, position⟩ := again_position split
    obtain ⟨within, count⟩ := counted opens split runs
    obtain ⟨r, rfl⟩ := Nat.exists_eq_add_one_of_ne_zero again
    rw [Nat.succ_mul] at position
    rw [count, earlier_toNat numbers] <;> rw [Nat.add_sub_cancel] <;> omega

end Enough

section Endless

/-- A column without an end: every name is followed by one of its rows. -/
def endlessColumn : SnmpVar Unit where
  id := []
  idlen_lt := by decide
  type := .tab1
  get := some fun _ world => (.null, world)
  next := none
  set := none

def endless : SnmpTable Unit :=
  ⟨[endlessColumn], by decide⟩

open Asn (Generous)

theorem findVar_endless (enterprise : ULong) (name : List UShort) :
    ∃ exact, findVar enterprise endless name = some (0, exact) := by
  cases name with
  | nil => exact ⟨true, rfl⟩
  | cons x name => exact ⟨false, rfl⟩

theorem nextLoop_endless (nextflag : Bool) (load : SnmpType → List ULong) (i3 : ULong) (name : Asn)
    {agent : Agent Unit} (generous : Generous agent.pool) :
    ∃ block len id agent', nextLoop endless.1 0 nextflag load i3 name agent =
      (.noError, .oid block len id, .null, agent') ∧ Generous agent'.pool := by
  obtain ⟨block, pool, granted, generous⟩ := Asn.alloc_generous generous
  simp only [endless, nextLoop, nextRow, endlessColumn, readNext, Agent.call, makeOidn, granted,
    indexName, numberName]
  exact ⟨_, _, _, _, rfl, generous⟩

theorem next_endless (id : List UShort) (name : Asn) (i3 : ULong) {agent : Agent Unit}
    (generous : Generous agent.pool) :
    ∃ block len id' agent', next endless agent id name i3 =
      (.noError, .oid block len id', .null, agent') ∧ Generous agent'.pool := by
  obtain ⟨exact, found⟩ := findVar_endless agent.snmp.enterprise id
  have column : endless.1[0]? = some endlessColumn := rfl
  have here : ¬(endlessColumn.nargs = 0 ∨ compare agent.snmp.enterprise
      (id.take (min endlessColumn.idlen id.length))
      (endlessColumn.id.take (min endlessColumn.idlen id.length)) ≠ .eq) := by
    rw [show endlessColumn.idlen = 0 from rfl, Nat.zero_min]
    simp [SnmpVar.nargs, endlessColumn, SnmpType.nargs, compare]
  simp only [next, found, column, if_neg here, drop_zero]
  split
  · exact nextLoop_endless _ _ _ _ generous
  · exact nextLoop_endless _ _ _ _ generous

/-- A command that keeps the memory generous, and is left only where there is no room. -/
abbrev Affords (command : Command (Frame Unit) Exit Unit) : Prop :=
  Meets (fun frame => Generous frame.agent.pool) command
    (fun _ frame => Generous frame.agent.pool) fun exit _ => exit = .overrun

theorem affords_addPair (i : Nat) {name val : Asn} (named : name ≠ .nil) (valued : val ≠ .nil) :
    Affords (addPair i name val) := by
  rw [addPair.eq_def]
  split
  · exact absurd rfl named
  · exact absurd rfl valued
  · intro frame generous
    obtain ⟨block, pool, granted, generous⟩ := Asn.alloc_generous generous
    simp only [bind, andThen, onPool, onAgent, act, granted]
    split_ifs
    · rfl
    · exact generous

theorem affords_serveNext (i3 : ULong) (tolerant : Bool) (i : Nat) {name : Asn} (oid : IsOid name) :
    Affords (serveNext endless i3 tolerant i name) := by
  obtain ⟨id, known⟩ := Option.isSome_iff_exists.mp oid
  intro frame generous
  obtain ⟨block, len, id', agent', answer, generous⟩ := next_endless id name i3 generous
  have named : Asn.oid block len id' ≠ .nil := by simp
  have valued : Asn.null ≠ .nil := by simp
  have added := affords_addPair i named valued
    { frame with agent := agent'.count .inTotalReqVars } generous
  rw [serveNext, known]
  simp only [bind, andThen, read, pure, done, onAgent, act, answer]
  exact added

/-- The smallest pair: a name without components, and no value. -/
def blankPair : Asn :=
  .seq 0 Asn.sequence 2 [.oid 0 0 [], .null]

/-- A GETBULK for the community "public" with these numbers. -/
def blankBulk (n : RequestNumbers) : Asn :=
  .seq 0 Asn.sequence 3 [.integer 0 (if n.version2 then 1 else 0),
    .string 0 .string 6 [112, 117, 98, 108, 105, 99],
    .seq 0 ⟨0xa5, by decide⟩ 4 [.integer 0 0, .integer 0 n.status, .integer 0 n.index,
      .seq 0 Asn.sequence n.count (.replicate n.count.toNat blankPair)]]

/-- A request with these numbers that names the smallest pair only. -/
structure Blank (request : Request) (n : RequestNumbers) : Prop where
  numbers : request.HasNumbers n
  bulk : request.kind = .getBulk
  pairs : request.inArr = .replicate request.inCount.toNat blankPair

variable {n : RequestNumbers}

theorem accept_blankBulk (bulk : n.kind = .getBulk) :
    ∃ request agent', accept (blankBulk n) (initial 9 Asn.plenty ()) = (.ok request, agent') ∧
      Blank request n ∧ Generous agent'.pool := by
  have permitted : (snmpAuth (initial 9 Asn.plenty ()).snmp
      ([112, 117, 98, 108, 105, 99] ++ [0]) false).1 = true := by decide +kernel
  have authorised : Authorised (blankBulk n) (initial 9 Asn.plenty ()).snmp 0 _ _ _ _ :=
    ⟨rfl, ⟨_, rfl⟩, by cases n.version2 <;> simp, ⟨_, _, rfl⟩, rfl, permitted⟩
  rw [accept_of_authorised authorised]
  refine ⟨_, _, rfl, ⟨⟨bulk.symm, rfl, rfl, ?_⟩, rfl, rfl⟩, ?_⟩
  · rw [bulk]
    rfl
  · intro number
    rw [snmpAuth]
    split_ifs <;> rfl

variable {request : Request} {i3 : Turn → ULong} {agent : Agent Unit}

/-- What the turns of such a request keep. -/
structure Running (frame : Frame Unit) : Prop where
  listed : Listed frame.outbind
  generous : Generous frame.agent.pool

theorem Blank.pair (blank : Blank request n) {i : Nat} (inside : i < request.inCount.toNat) :
    child request.inCount request.inArr i = some blankPair := by
  rw [child, if_pos inside, blank.pairs, List.getElem?_replicate, if_pos inside]

variable {frame : Frame Unit}

theorem exists_affords (i3 : Turn → ULong) (blank : Blank request n) {turn : Turn}
    (listed : Listed frame.outbind) (shaped : Shaped request frame turn) :
    ∃ command, Affords command ∧ serve endless i3 request turn frame = command frame := by
  obtain ⟨pair, name, val, found, known, oid⟩ := exists_binding listed shaped
  simp only [serve, bind, andThen, found, known, read, pure, done]
  refine ⟨_, ?_, rfl⟩
  cases turn with
  | first i =>
    rw [pairOf] at found
    cases found.symm.trans (blank.pair (child_some found).1)
    cases known
    dsimp only
    rw [if_neg (by decide), blank.bulk]
    exact affords_serveNext _ _ i (show IsOid (.oid 0 0 []) from rfl)
  | again r i => exact affords_serveNext _ true i (oid r i rfl)

theorem running_serve (i3 : Turn → ULong) (blank : Blank request n) (turn : Turn) :
    Meets (fun frame => Running frame ∧ Shaped request frame turn) (serve endless i3 request turn)
      (fun _ frame => Running frame) fun exit _ => exit = .overrun := by
  rintro frame ⟨⟨listed, generous⟩, shaped⟩
  have kept := @serve_listed _ request endless i3 turn frame listed
  obtain ⟨command, granted, same⟩ := exists_affords i3 blank listed shaped
  have goes := granted frame generous
  rw [same] at kept ⊢
  generalize command frame = result at kept goes ⊢
  obtain ⟨exit | value, frame'⟩ := result
  · exact goes
  · exact ⟨kept, goes⟩

theorem shaped_position {before after : List Turn} {turn : Turn} (blank : Blank request n)
    (split : request.turns = before ++ turn :: after) (low : before.length < 65536)
    (count : frame.outbind.count.toNat = before.length) :
    Shaped request frame turn := by
  cases turn with
  | first i =>
    obtain ⟨first, -, few, -⟩ := blank.numbers.spec
    have inside : i < request.nonrepeaters.toNat := first_position split
    refine ⟨blankPair, blank.pair ?_, rfl⟩
    rw [blank.numbers.count]
    omega
  | again r i =>
    obtain ⟨-, j, inside, rfl, -, position⟩ := again_position split
    rw [Shaped]
    split_ifs with start
    · refine ⟨blankPair, .oid 0 0 [], .null, blank.pair ?_, rfl, rfl⟩
      rw [Request.repeated] at inside
      omega
    · obtain ⟨r, rfl⟩ := Nat.exists_eq_add_one_of_ne_zero start
      rw [Nat.succ_mul] at position
      rw [count, earlier_toNat blank.numbers] <;> rw [Nat.add_sub_cancel] <;> omega

theorem run_blank {before after : List Turn} (blank : Blank request n)
    (opens : Opens request agent frame) (generous : Generous agent.pool)
    (split : request.turns = before ++ after) (room : before.length ≤ request.slots)
    (low : before.length ≤ 65536) :
    ∃ frame', each before (serve endless i3 request) frame = (.ok (), frame') ∧
      Running frame' := by
  induction before using List.reverseRecOn generalizing after with
  | nil =>
    refine ⟨frame, rfl, opens.listed, ?_⟩
    obtain ⟨granted, -, -⟩ := opens
    obtain ⟨block, pool, granted', generous⟩ := Asn.alloc_generous generous
    cases granted.symm.trans granted'
    exact generous
  | append_singleton before turn ih =>
    rw [length_append, length_singleton] at room low
    rw [List.append_assoc, singleton_append] at split
    obtain ⟨frame', runs, running⟩ := ih split (by omega) (by omega)
    obtain ⟨size, count⟩ := opens_counts opens runs
    rw [Nat.mod_eq_of_lt (by omega)] at count
    have shaped := shaped_position blank split (by omega) count
    have goes := running_serve i3 blank turn frame' ⟨running, shaped⟩
    have adds := addsOne_serve endless i3 request turn frame'.outbind frame' rfl
    rw [each_append runs]
    generalize result : serve endless i3 request turn frame' = outcome at goes adds
    obtain ⟨exit | value, frame''⟩ := outcome
    · have full := adds goes
      omega
    · exact ⟨frame'', bind_ok result, goes⟩

theorem not_fits (i3 : Turn → ULong) (blank : Blank request n) (generous : Generous agent.pool)
    (crowded : ¬n.Roomy) : ¬Fits endless i3 request agent := by
  intro fits
  have length := pairs_eq blank.numbers
  have slots := slots_eq blank.numbers
  obtain ⟨block, pool, granted, -⟩ := Asn.alloc_generous generous
  have clear : request.slots ≠ 2 ^ 30 - 1 := by
    apply fits.cleared
    rw [granted]
    rfl
  have opens : Opens request agent _ := .intro granted rfl clear
  rw [RequestNumbers.Roomy, ← slots, and_iff_right clear, not_and_or] at crowded
  rcases Nat.lt_or_ge request.slots 65536 with small | large
  · have more : request.slots < request.turns.length := by omega
    have split := (take_append_drop request.slots request.turns).symm
    have taken : (request.turns.take request.slots).length = request.slots := by
      rw [length_take]
      omega
    obtain ⟨frame', runs, running⟩ := run_blank blank opens generous split taken.le (by omega)
    rw [drop_eq_getElem_cons more] at split
    obtain ⟨size, count⟩ := opens_counts opens runs
    rw [taken, Nat.mod_eq_of_lt small] at count
    have goes := running_serve i3 blank _ frame'
      ⟨running, shaped_position blank split (by omega) (by omega)⟩
    have adds := addsOne_serve endless i3 request (request.turns[request.slots]) frame'.outbind
      frame' rfl
    apply fits.added _ opens
    rw [split, each_append runs]
    generalize result : serve endless i3 request (request.turns[request.slots]) frame' = outcome
      at goes adds
    obtain ⟨exit | value, frame''⟩ := outcome
    · subst goes
      exact congrArg Prod.fst (bind_error result)
    · omega
  · have more : 65536 ≤ request.turns.length := by omega
    have split := (take_append_drop 65536 request.turns).symm
    have taken : (request.turns.take 65536).length = 65536 := by
      rw [length_take]
      omega
    obtain ⟨frame', runs, -⟩ := run_blank blank opens generous split (by omega) taken.le
    have count := (opens_counts opens runs).2
    have counted := fits.counted _ _ _ _ opens split runs
    omega

end Endless

/-- Requests with these numbers fit into the blocks of their responses if and only if there is room
for all their pairs. -/
theorem responses_fit_iff (n : RequestNumbers) :
    (∀ {Device : Type} (tab : SnmpTable Device) (i3 : Turn → ULong) (b : Asn)
      (agent agent' : Agent Device) (request : Request),
      accept b agent = (.ok request, agent') → request.HasNumbers n →
        Fits tab i3 request agent') ↔ n.Roomy := by
  constructor
  · intro fits
    by_contra crowded
    have bulk : n.kind = .getBulk := by
      by_contra other
      obtain ⟨all, none⟩ := (repeats_spec n.kind n.count n.status n.index).2 other
      have bound := n.count.isLt
      apply crowded
      change n.nonrepeaters = _ at all
      change n.repetitions = 0 at none
      rw [RequestNumbers.Roomy, RequestNumbers.slots, RequestNumbers.pairs, none, all,
        if_neg fun both => other both.1]
      omega
    obtain ⟨request, agent', accepted, blank, generous⟩ := accept_blankBulk bulk
    exact not_fits (fun _ => 0) blank generous crowded
      (fits endless _ _ _ _ _ accepted blank.numbers)
  · intro roomy Device tab i3 b agent agent' request _ numbers
    exact fits_of_roomy numbers roomy

/-- A GETBULK with two bindings and `2 ^ 29` repetitions: there is no room for any pair. -/
def crowdedNumbers : RequestNumbers :=
  ⟨.getBulk, true, 2, 0, 0x20000000⟩

theorem crowded_overruns :
    ∃ request agent', accept (blankBulk crowdedNumbers) (initial 9 Asn.plenty ()) =
        (.ok request, agent') ∧ request.slots = 0 ∧ request.turns.length = 2 ^ 30 ∧
      ¬Fits endless (fun _ => 0) request agent' := by
  obtain ⟨request, agent', accepted, blank, generous⟩ :=
    accept_blankBulk (show crowdedNumbers.kind = .getBulk from rfl)
  refine ⟨request, agent', accepted, ?_, ?_, not_fits _ blank generous (by decide +kernel)⟩
  · rw [slots_eq blank.numbers]
    decide +kernel
  · rw [pairs_eq blank.numbers]
    decide +kernel

end Snmp
end Uos
