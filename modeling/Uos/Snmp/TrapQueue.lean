import Mathlib.Data.List.Perm.Subperm
import Mathlib.Data.Option.Basic
import Uos.Snmp.TrapDefer

/-!
# The queue of traps

What is known of the queue and the flags, and that queueing and sending traps keep it.
-/

namespace Uos

open Function List

/-- The state of a link or a port, or of the alarm, that a trap carries. -/
def Trap.state : Trap → Option (ULong × ULong)
  | .alarm state => some (state.setWidth 32, 0)
  | .linkport _ up _ status => some (up.setWidth 32, status.setWidth 32)
  | .coldStart _ | .authFailure _ => none

def TrapKey.HasState : TrapKey → Prop
  | .alarm | .linkport .. => True
  | .coldStart | .authFailure => False

def ofKey (key : TrapKey) (traps : List Trap) : List Trap :=
  traps.filter (·.key = key)

/-- What may be queued for a key: at most one trap, and where the key has a state, just the state of
the last event, unless it was sent. -/
structure Due (reported : Option Trap) (latest : Option (ULong × ULong)) (key : TrapKey)
    (queued : List Trap) : Prop where
  once : queued.length ≤ 1
  sent : key.HasState → latest = reported.bind Trap.state → queued = []
  waits : key.HasState → latest ≠ reported.bind Trap.state →
    ∃ trap, queued = [trap] ∧ trap.state = latest

section Lists

variable {Item : Type*} {property : Item → Bool} {items : List Item} {i : Nat}

theorem filter_eraseIdx_other (bound : i < items.length) (other : property items[i] = false) :
    (items.eraseIdx i).filter property = items.filter property := by
  have same : items = items.take i ++ items[i] :: items.drop (i + 1) := by
    rw [getElem_cons_drop, take_append_drop]
  conv_rhs => rw [same]
  rw [eraseIdx_eq_take_drop_succ, filter_append, filter_append,
    filter_cons_of_neg (by simp [other])]

theorem filter_set_other (bound : i < items.length) (other : property items[i] = false)
    {item : Item} (also : property item = false) :
    (items.set i item).filter property = items.filter property := by
  have same : items = items.take i ++ items[i] :: items.drop (i + 1) := by
    rw [getElem_cons_drop, take_append_drop]
  conv_rhs => rw [same]
  rw [set_eq_take_append_cons_drop, if_pos bound, filter_append, filter_append,
    filter_cons_of_neg (by simp [also]), filter_cons_of_neg (by simp [other])]

theorem filter_others (bound : i < items.length) (holds : property items[i] = true)
    (once : (items.filter property).length ≤ 1) :
    (items.take i).filter property = [] ∧ (items.drop (i + 1)).filter property = [] := by
  have same : items = items.take i ++ items[i] :: items.drop (i + 1) := by
    rw [getElem_cons_drop, take_append_drop]
  rw [same, filter_append, filter_cons_of_pos holds, length_append,
    length_cons] at once
  rw [← length_eq_zero_iff, ← length_eq_zero_iff]
  omega

theorem filter_eraseIdx_self (bound : i < items.length) (holds : property items[i] = true)
    (once : (items.filter property).length ≤ 1) : (items.eraseIdx i).filter property = [] := by
  obtain ⟨before, behind⟩ := filter_others bound holds once
  rw [eraseIdx_eq_take_drop_succ, filter_append, before, behind]
  rfl

theorem filter_set_self (bound : i < items.length) (holds : property items[i] = true)
    (once : (items.filter property).length ≤ 1) {item : Item} (also : property item = true) :
    (items.set i item).filter property = [item] := by
  obtain ⟨before, behind⟩ := filter_others bound holds once
  rw [set_eq_take_append_cons_drop, if_pos bound, filter_append,
    filter_cons_of_pos also, before, behind]
  rfl

end Lists

namespace TrapDefer

def Known (s : TrapDefer) : TrapKey → Prop
  | .linkport port index => index < (if port = true then s.ports else s.links).toNat
  | _ => True

def knownKeys (s : TrapDefer) : List TrapKey :=
  [.coldStart, .alarm, .authFailure] ++ (List.range s.links.toNat).map (.linkport false) ++
    (List.range s.ports.toNat).map (.linkport true)

/-- What is known of the queue and the flags as long as nothing goes wrong. -/
structure Consistent (s : TrapDefer) (latest : TrapKey → Option (ULong × ULong)) : Prop where
  valid : s.queue.Valid
  size : 4 + s.links.toNat + s.ports.toNat ≤ s.queue.size
  known : ∀ trap ∈ s.queue.contents, s.Known trap.key
  due : ∀ key, Due (s.reported key) (latest key) key (ofKey key s.queue.contents)
  keys : ∀ key trap, s.reported key = some trap → trap.key = key
  flags : ∀ port index, s.Known (.linkport port index) →
    match s.reported (.linkport port index) with
    | some (.linkport _ up _ status) => s.trap_flag (s.trapIndex port index) = (up, status)
    | _ => s.trap_flag (s.trapIndex port index) = (0xFF, 0xFF)
  alarm : match s.reported .alarm with
    | some (.alarm state) => s.alarm_state = state ∧ state.toNat < 128
    | _ => s.alarm_state = 0xFF
  signed : ∀ state, latest .alarm = some state → state.1.toNat < 128
  overflows : s.overflows = 0

variable {s : TrapDefer} {latest : TrapKey → Option (ULong × ULong)}

theorem length_knownKeys : s.knownKeys.length = 3 + s.links.toNat + s.ports.toNat := by
  simp [knownKeys]
  omega

theorem Known.mem {key : TrapKey} (known : s.Known key) : key ∈ s.knownKeys := by
  cases key with
  | linkport port index =>
    cases port with
    | false => simpa [knownKeys, Known] using known
    | true => simpa [knownKeys, Known] using known
  | _ => simp [knownKeys]

theorem length_le {traps : List Trap} (known : ∀ trap ∈ traps, s.Known trap.key)
    (once : ∀ key, (ofKey key traps).length ≤ 1) :
    traps.length ≤ 3 + s.links.toNat + s.ports.toNat := by
  have nodup : (traps.map Trap.key).Nodup := by
    rw [nodup_iff_count]
    intro key
    rw [List.count, countP_map, countP_eq_length_filter]
    exact once key
  have subset : traps.map Trap.key ⊆ s.knownKeys := by
    intro key member
    obtain ⟨trap, inside, rfl⟩ := mem_map.mp member
    exact (known trap inside).mem
  have shorter := (nodup.subperm subset).length_le
  rwa [length_map, length_knownKeys] at shorter

theorem Consistent.requeue (consistent : s.Consistent latest) {queue : Ring Trap}
    (valid : queue.Valid) (size : queue.size = s.queue.size) (key : TrapKey)
    (known : ∀ trap ∈ queue.contents, s.Known trap.key)
    {latest' : TrapKey → Option (ULong × ULong)}
    (same : ∀ other ≠ key, latest' other = latest other)
    (others : ∀ other ≠ key, ofKey other queue.contents = ofKey other s.queue.contents)
    (due : Due (s.reported key) (latest' key) key (ofKey key queue.contents))
    (signed : ∀ state, latest' .alarm = some state → state.1.toNat < 128) :
    Consistent { s with queue } latest' where
  valid := valid
  size := size.symm ▸ consistent.size
  known := known
  due other := by
    rcases eq_or_ne other key with rfl | ne
    · exact due
    · rw [same other ne]
      dsimp only
      rw [others other ne]
      exact consistent.due other
  keys := consistent.keys
  flags := consistent.flags
  alarm := consistent.alarm
  signed := signed
  overflows := consistent.overflows

theorem Consistent.congr (consistent : s.Consistent latest) {s' : TrapDefer}
    (queue : s'.queue = s.queue) (links : s'.links = s.links) (ports : s'.ports = s.ports)
    (trap_flag : s'.trap_flag = s.trap_flag) (alarm_state : s'.alarm_state = s.alarm_state)
    (reported : s'.reported = s.reported) (overflows : s'.overflows = s.overflows) :
    s'.Consistent latest := by
  cases s
  cases s'
  subst queue links ports trap_flag alarm_state reported overflows
  exact { consistent with }

theorem ofKey_cons_self (trap : Trap) (traps : List Trap) :
    ofKey trap.key (trap :: traps) = trap :: ofKey trap.key traps := by
  simp [ofKey]

theorem ofKey_cons_other {key : TrapKey} {trap : Trap} (other : key ≠ trap.key)
    (traps : List Trap) : ofKey key (trap :: traps) = ofKey key traps := by
  simp [ofKey, other.symm]

theorem ofKey_append (key : TrapKey) (traps others : List Trap) :
    ofKey key (traps ++ others) = ofKey key traps ++ ofKey key others :=
  filter_append ..

theorem Consistent.rest (consistent : s.Consistent latest) {trap : Trap} {rest : List Trap}
    (contents : s.queue.contents = trap :: rest) : ofKey trap.key rest = [] := by
  have once := (consistent.due trap.key).once
  rw [contents, ofKey_cons_self, length_cons] at once
  exact length_eq_zero_iff.mp (Nat.le_zero.mp (Nat.le_of_succ_le_succ once))

theorem Consistent.rotate (consistent : s.Consistent latest) {trap : Trap} {rest : List Trap}
    (contents : s.queue.contents = trap :: rest) :
    Consistent { s with queue := (s.queue.put trap (s.queue.next s.queue.last)).take } latest := by
  have moved := Ring.contents_rotate consistent.valid contents trap
  have bound := Ring.next_lt (Nat.zero_lt_of_lt consistent.valid.first_lt) s.queue.last
  have known := consistent.known
  rw [contents] at known
  apply consistent.requeue (consistent.valid.put trap bound).take rfl trap.key
  · intro other member
    rw [moved] at member
    apply known
    simpa [or_comm] using member
  · exact fun _ _ => rfl
  · intro other ne
    rw [moved, contents, ofKey_append, ofKey_cons_other ne, ofKey_cons_other ne]
    exact append_nil _
  · have due := consistent.due trap.key
    rw [contents, ofKey_cons_self, consistent.rest contents] at due
    rw [moved, ofKey_append, consistent.rest contents, ofKey_cons_self]
    exact due
  · exact consistent.signed

theorem trapIndex_injective {port port' : Bool} {index index' : Nat}
    (known : s.Known (.linkport port index)) (known' : s.Known (.linkport port' index'))
    (same : s.trapIndex port index = s.trapIndex port' index') :
    (port, index) = (port', index') := by
  cases port <;> cases port' <;> simp [trapIndex, Known] at * <;> omega

theorem Consistent.state_first (consistent : s.Consistent latest) {trap : Trap} {rest : List Trap}
    (contents : s.queue.contents = trap :: rest) (stateful : trap.key.HasState) :
    trap.state = latest trap.key := by
  have due := consistent.due trap.key
  rw [contents, ofKey_cons_self] at due
  rcases eq_or_ne (latest trap.key) ((s.reported trap.key).bind Trap.state) with same | differs
  · exact absurd (due.sent stateful same) (cons_ne_nil _ _)
  · obtain ⟨only, single, state⟩ := due.waits stateful differs
    rwa [← (List.cons.inj single).1] at state

def flagsBehind (s : TrapDefer) : Trap → Nat → UChar × UChar
  | .linkport port up index status =>
    Function.update s.trap_flag (s.trapIndex port index.toNat) (up, status)
  | _ => s.trap_flag

def alarmBehind (s : TrapDefer) : Trap → UChar
  | .alarm state => state
  | _ => s.alarm_state

theorem Consistent.report (consistent : s.Consistent latest) {trap : Trap} {rest : List Trap}
    (contents : s.queue.contents = trap :: rest) {s' : TrapDefer}
    (queue : s'.queue = s.queue.take) (links : s'.links = s.links) (ports : s'.ports = s.ports)
    (reported : s'.reported = Function.update s.reported trap.key (some trap))
    (overflows : s'.overflows = s.overflows)
    (trap_flag : s'.trap_flag = s.flagsBehind trap)
    (alarm_state : s'.alarm_state = s.alarmBehind trap) : s'.Consistent latest := by
  have taken : s'.queue.contents = rest := by
    have filled : s.queue.first ≠ s.queue.last := by
      rw [Ne, ← Ring.contents_eq_nil_iff consistent.valid, contents]
      exact cons_ne_nil _ _
    rw [Ring.contents_take consistent.valid filled] at contents
    rw [queue, (List.cons.inj contents).2]
  have same_index : s'.trapIndex = s.trapIndex := by
    funext port index
    rw [trapIndex, trapIndex, links]
  have same_known : s'.Known = s.Known := by
    funext key
    cases key <;> simp only [Known, links, ports]
  have others := consistent.known
  rw [contents] at others
  refine ⟨?_, ?_, ?_, ?_, ?_, ?_, ?_, consistent.signed, overflows ▸ consistent.overflows⟩
  · rw [queue]
    exact consistent.valid.take
  · rw [queue, links, ports]
    exact consistent.size
  · rw [taken, same_known]
    exact fun other member => others other (mem_cons_of_mem _ member)
  · intro key
    rw [taken, reported]
    rcases eq_or_ne key trap.key with rfl | ne
    · rw [update_self, consistent.rest contents]
      refine ⟨Nat.zero_le _, fun _ _ => rfl, fun stateful differs => ?_⟩
      exact absurd (consistent.state_first contents stateful).symm differs
    · rw [update_of_ne ne]
      have due := consistent.due key
      rwa [contents, ofKey_cons_other ne] at due
  · intro key other
    rw [reported]
    rcases eq_or_ne key trap.key with rfl | ne
    · rw [update_self]
      exact fun same => congrArg Trap.key (Option.some_injective _ same).symm
    · rw [update_of_ne ne]
      exact consistent.keys key other
  · intro port index known
    rw [same_known] at known
    rw [reported, same_index, trap_flag]
    have flags := consistent.flags port index known
    rcases eq_or_ne (.linkport port index) trap.key with same | ne
    · rw [same, update_self]
      cases trap with
      | linkport port' up index' status =>
        cases same
        exact update_self ..
      | _ => cases same
    · rw [update_of_ne ne]
      cases trap with
      | linkport port' up index' status =>
        have apart : s.trapIndex port index ≠ s.trapIndex port' index'.toNat := by
          intro same
          have pairs := trapIndex_injective known (others _ mem_cons_self) same
          obtain ⟨rfl, rfl⟩ := Prod.mk.inj pairs
          exact ne rfl
        rw [flagsBehind, update_of_ne apart]
        exact flags
      | _ => exact flags
  · rw [reported, alarm_state]
    rcases eq_or_ne .alarm trap.key with same | ne
    · rw [same, update_self]
      cases trap with
      | alarm state =>
        have latest := (consistent.state_first contents trivial).symm
        have bound := consistent.signed _ latest
        have small : state.toNat < 2 ^ 32 := Nat.lt_trans state.isLt (by decide)
        rw [BitVec.toNat_setWidth, Nat.mod_eq_of_lt small] at bound
        exact ⟨rfl, bound⟩
      | _ => cases same
    · rw [update_of_ne ne]
      cases trap with
      | alarm state => exact absurd rfl ne
      | _ => exact consistent.alarm

/-- What `send_trap` does, where traps are enabled. -/
theorem sendTrap_cases (s : TrapDefer) {env : TrapEnv} (enabled : env.enable_traps = true)
    (cell : Nat) (trap : Trap) :
    s.sendTrap env cell trap = (false, s) ∨
    (trap.key = .authFailure ∧ s.sendTrap env cell trap = (true, s)) ∨
    ∃ s', s.sendTrap env cell trap = (true, s') ∧ s'.queue = s.queue ∧ s'.links = s.links ∧
      s'.ports = s.ports ∧ s'.reported = Function.update s.reported trap.key (some trap) ∧
      s'.overflows = s.overflows ∧ s'.trap_flag = s.flagsBehind trap ∧
      s'.alarm_state = s.alarmBehind trap := by
  rw [sendTrap.eq_def]
  cases sends : env.sends cell with
  | false =>
    cases trap with
    | authFailure user_addr =>
      cases env.enable_authen_traps with
      | false => exact .inr (.inl ⟨rfl, by simp⟩)
      | true => exact .inl (by simp)
    | _ => exact .inl (by simp [enabled])
  | true =>
    cases trap with
    | authFailure user_addr =>
      cases env.enable_authen_traps with
      | false => exact .inr (.inl ⟨rfl, by simp⟩)
      | true =>
        simp only [if_true]
        exact .inr (.inr ⟨_, rfl, rfl, rfl, rfl, rfl, rfl, rfl, rfl⟩)
    | _ =>
      simp only [enabled, if_true]
      exact .inr (.inr ⟨_, rfl, rfl, rfl, rfl, rfl, rfl, rfl, rfl⟩)

theorem Consistent.skip (consistent : s.Consistent latest) {trap : Trap} {rest : List Trap}
    (contents : s.queue.contents = trap :: rest) (auth : trap.key = .authFailure)
    (taken : s.queue.take.contents = rest) :
    Consistent { s with queue := s.queue.take } latest := by
  have known := consistent.known
  rw [contents] at known
  apply consistent.requeue consistent.valid.take rfl .authFailure
  · rw [taken]
    exact fun other member => known other (mem_cons_of_mem _ member)
  · exact fun _ _ => rfl
  · intro other ne
    rw [taken, contents, ofKey_cons_other (auth ▸ ne)]
  · rw [taken, ← auth, consistent.rest contents]
    rw [auth]
    exact ⟨Nat.zero_le _, fun _ _ => rfl, False.elim⟩
  · exact consistent.signed

/-- The loop of `trap_try` keeps what is known. -/
theorem Consistent.tryLoop {env : TrapEnv} (enabled : env.enable_traps = true) {e n m t : Nat}
    {result : Int}
    (consistent : Consistent { s with queue := { s.queue with first := t } } latest)
    (left : m ≤ ({ s.queue with first := t } : Ring Trap).used)
    (ends : e = ({ s.queue with first := t } : Ring Trap).index m) (enough : m < n) :
    (s.tryLoop env e n t result).2.Consistent latest := by
  induction n generalizing s m t result with
  | zero => exact absurd enough (Nat.not_lt_zero m)
  | succ n ih =>
    have valid := consistent.valid
    have first := Ring.index_zero valid
    have less := Ring.used_lt valid
    dsimp only at valid first less
    rw [TrapDefer.tryLoop]
    cases m with
    | zero =>
      rw [if_pos (first.symm.trans ends.symm)]
      exact consistent
    | succ m =>
      have filled : t ≠ s.queue.last := by
        intro empty
        have nothing : ({ s.queue with first := t } : Ring Trap).contents.length = 0 := by
          rw [(Ring.contents_eq_nil_iff valid).mpr empty]
          rfl
        rw [Ring.length_contents] at nothing
        omega
      have contents := Ring.contents_take valid filled
      have lengths := congrArg List.length contents
      rw [Ring.length_contents, length_cons, Ring.length_contents] at lengths
      have bound : m ≤ ({ s.queue with first := t } : Ring Trap).take.used :=
        Nat.le_of_succ_le_succ (Nat.le_trans left (Nat.le_of_eq lengths))
      have ends' := Ring.index_take valid (Nat.lt_of_le_of_lt left less)
      dsimp only
      split_ifs
      · exact consistent
      · have rotated := consistent.rotate contents
        refine ih (m := m) ?_ ?_ ?_ ?_
        · exact rotated.congr rfl rfl rfl rfl rfl rfl rfl
        · have moved := congrArg List.length
            (Ring.contents_rotate valid contents (s.queue.cells t))
          rw [Ring.length_contents, length_append, Ring.length_contents] at moved
          exact Nat.le_trans (Nat.le_succ_of_le bound) (Nat.le_of_eq moved.symm)
        · exact ends.trans ends'.symm
        · exact Nat.lt_of_succ_lt_succ enough
      · rcases s.sendTrap_cases enabled t (s.queue.cells t) with fails | ⟨auth, skips⟩ |
          ⟨s', sends, queue, links, ports, reported, overflows, flags, alarm⟩
        · rw [fails]
          exact consistent
        · rw [skips]
          refine ih (m := m) ?_ ?_ ?_ ?_
          · exact (consistent.skip contents auth rfl).congr rfl rfl rfl rfl rfl rfl rfl
          · exact bound
          · exact ends.trans ends'.symm
          · exact Nat.lt_of_succ_lt_succ enough
        · rw [sends]
          refine ih (m := m) ?_ ?_ ?_ ?_
          · apply consistent.report contents
            · rw [← queue]
              rfl
            · exact links
            · exact ports
            · exact reported
            · exact overflows
            · rw [flagsBehind.eq_def]
              exact flags
            · exact alarm
          · rw [queue]
            exact bound
          · rw [queue]
            exact ends.trans ends'.symm
          · exact Nat.lt_of_succ_lt_succ enough

theorem Consistent.trapTry (consistent : s.Consistent latest) {env : TrapEnv}
    (enabled : env.enable_traps = true) : (s.trapTry env).2.Consistent latest := by
  apply consistent.tryLoop enabled (Nat.le_refl _)
  · exact (Ring.index_used consistent.valid).symm
  · exact Ring.used_lt consistent.valid

/-- A trap with a state says what was sent last for its key. -/
def Indicated (s : TrapDefer) (now : Trap) : Prop :=
  now.state = (s.reported now.key).bind Trap.state

/-- What `trap_decide` decides. -/
inductive Decides (s : TrapDefer) (now : Trap) (queued : Option Nat) : Int × TrapDefer → Prop
  | indicated (stateful : now.key.HasState) (indicated : s.Indicated now) :
      Decides s now queued (0, s)
  | updates {t : Nat} (cell : queued = some t)
      (differs : now.key.HasState → ¬s.Indicated now) :
      Decides s now queued (-1, { s with queue := s.queue.set t now })
  | adds (trap_countdown : Nat → UChar) (alarm_countdown : UChar)
      (differs : now.key.HasState → ¬s.Indicated now) :
      Decides s now queued (1, { s with trap_countdown, alarm_countdown })

theorem widen_injective {a b : UChar} (same : a.setWidth 32 = b.setWidth 32) : a = b := by
  have values := congrArg BitVec.toNat same
  rw [BitVec.toNat_setWidth, BitVec.toNat_setWidth] at values
  apply BitVec.eq_of_toNat_eq
  omega

theorem Consistent.indicated_alarm (consistent : s.Consistent latest) (state : UChar) :
    s.Indicated (.alarm state) ↔ s.alarm_state.toInt = state.toNat := by
  have alarm := consistent.alarm
  have keys := consistent.keys .alarm
  rw [Indicated, Trap.key, Trap.state]
  cases reported : s.reported .alarm with
  | none =>
    rw [reported] at alarm
    rw [alarm]
    constructor
    · intro impossible
      cases impossible
    · intro impossible
      simp at impossible
  | some trap =>
    cases trap with
    | alarm state' =>
      rw [reported] at alarm
      obtain ⟨known, bound⟩ := alarm
      rw [known, BitVec.toInt_eq_toNat_of_lt (by omega)]
      constructor
      · intro same
        have states := congrArg Prod.fst (Option.some_injective _ same)
        rw [widen_injective states]
      · intro same
        rw [BitVec.eq_of_toNat_eq (Int.ofNat_inj.mp same)]
        rfl
    | _ => cases keys _ reported

theorem Consistent.indicated_linkport (consistent : s.Consistent latest) {port : Bool}
    {up index status : UChar} (known : s.Known (.linkport port index.toNat))
    (unset : (up, status) = (0xFF, 0xFF) → s.reported (.linkport port index.toNat) ≠ none) :
    s.Indicated (.linkport port up index status) ↔
      s.trap_flag (s.trapIndex port index.toNat) = (up, status) := by
  have flags := consistent.flags port index.toNat known
  have keys := consistent.keys (.linkport port index.toNat)
  rw [Indicated, Trap.key, Trap.state]
  cases reported : s.reported (.linkport port index.toNat) with
  | none =>
    rw [reported] at flags
    rw [flags]
    constructor
    · intro impossible
      cases impossible
    · exact fun same => absurd reported (unset same.symm)
  | some trap =>
    cases trap with
    | linkport port' up' index' status' =>
      rw [reported] at flags
      rw [flags]
      constructor
      · intro same
        obtain ⟨ups, statuses⟩ := Prod.mk.inj (Option.some_injective _ same)
        rw [widen_injective ups, widen_injective statuses]
      · intro same
        obtain ⟨rfl, rfl⟩ := Prod.mk.inj same
        rfl
    | _ => cases keys _ reported

/-- `trap_decide`, for a queued trap with the same key. -/
theorem Consistent.decides (consistent : s.Consistent latest) (env : TrapEnv) {now : Trap}
    {queued : Option Nat} (known : s.Known now.key)
    (same : ∀ t, queued = some t → (s.queue.cells t).key = now.key)
    (unset : ∀ port up index status, now = .linkport port up index status →
      (up, status) = (0xFF, 0xFF) → s.reported now.key ≠ none) :
    Decides s now queued (s.trapDecide env now queued) := by
  cases now with
  | coldStart reset_counter => exact .adds s.trap_countdown s.alarm_countdown False.elim
  | authFailure user_addr =>
    cases queued with
    | none => exact .adds s.trap_countdown s.alarm_countdown False.elim
    | some t => exact .updates rfl False.elim
  | alarm state =>
    have indicated := consistent.indicated_alarm state
    rw [trapDecide]
    split_ifs with flagged repeated
    · exact .indicated trivial (indicated.mpr flagged)
    · cases queued with
      | none => cases repeated
      | some t =>
        have stored := Option.some_injective _ repeated
        have unchanged : s.queue.set t (.alarm state) = s.queue := by
          rw [← stored, Ring.set, update_eq_self]
        have updates : Decides s (.alarm state) (some t)
            (-1, { s with queue := s.queue.set t (.alarm state) }) :=
          .updates rfl fun _ => mt indicated.mp flagged
        rwa [unchanged] at updates
    all_goals exact .adds s.trap_countdown _ fun _ => mt indicated.mp flagged
  | linkport port up index status =>
    have indicated := consistent.indicated_linkport known (unset port up index status rfl)
    rw [trapDecide.eq_def]
    dsimp only
    rcases eq_or_ne (s.trap_flag (s.trapIndex port index.toNat)) (up, status)
      with flagged | differs
    · rw [if_pos flagged]
      exact .indicated trivial (indicated.mpr flagged)
    · rw [if_neg differs]
      have adds : ∀ trap_countdown, Decides s (.linkport port up index status) queued
          (1, { s with trap_countdown }) :=
        fun countdown => .adds countdown s.alarm_countdown fun _ => mt indicated.mp differs
      cases queued with
      | none => exact adds _
      | some t =>
        have key := same t rfl
        dsimp only
        cases cell : s.queue.cells t with
        | linkport port' up' index' status' =>
          dsimp only
          rcases eq_or_ne up up' with rfl | ups
          · rw [cell] at key
            obtain ⟨rfl, indexes⟩ := TrapKey.linkport.inj key
            obtain rfl := BitVec.eq_of_toNat_eq indexes
            rw [if_pos rfl]
            exact .updates rfl fun _ => mt indicated.mp differs
          · rw [if_neg ups]
            exact adds _
        | _ => exact adds _

/-- What `trap_lookup` finds. -/
theorem Consistent.trapLookup_cases (consistent : s.Consistent latest) (now : Trap) :
    (s.trapLookup now = none ∧ ofKey now.key s.queue.contents = []) ∨
    ∃ i, ∃ bound : i < s.queue.contents.length, s.trapLookup now = some (s.queue.index i) ∧
      s.queue.contents[i].key = now.key := by
  have found := Ring.lookup_cases consistent.valid (fun t => t.key = now.key)
    (Ring.used_lt consistent.valid) (Nat.le_refl _)
  rw [Ring.index_used consistent.valid] at found
  rcases found with ⟨nowhere, others⟩ | ⟨i, bound, cell, same⟩
  · refine .inl ⟨nowhere, filter_eq_nil_iff.mpr fun trap member => ?_⟩
    obtain ⟨i, bound, rfl⟩ := mem_iff_getElem.mp member
    rw [Ring.length_contents] at bound
    rw [Ring.getElem_contents]
    simpa using others i bound
  · rw [← Ring.length_contents] at bound
    refine .inr ⟨i, bound, cell, ?_⟩
    rw [Ring.getElem_contents]
    exact of_decide_eq_true same

theorem Consistent.removed (consistent : s.Consistent latest) (now : Trap) :
    let queue := without (s.trapLookup now) s.queue
    queue.Valid ∧ queue.size = s.queue.size ∧ ofKey now.key queue.contents = [] ∧
      (∀ other ≠ now.key, ofKey other queue.contents = ofKey other s.queue.contents) ∧
      ∀ trap ∈ queue.contents, s.Known trap.key := by
  rcases consistent.trapLookup_cases now with ⟨nowhere, others⟩ | ⟨i, bound, cell, same⟩
  · rw [nowhere, TrapDefer.without]
    exact ⟨consistent.valid, rfl, others, fun _ _ => rfl, consistent.known⟩
  · rw [cell, TrapDefer.without]
    have used : i < s.queue.used := Ring.length_contents ▸ bound
    have enough : s.queue.used ≤ i + s.queue.size :=
      Nat.le_trans (Nat.le_of_lt (Ring.used_lt consistent.valid)) (Nat.le_add_left _ _)
    obtain ⟨contents, valid⟩ := Ring.contents_remove consistent.valid used enough
    dsimp only
    rw [contents]
    refine ⟨valid, Ring.size_remove _ _, ?_, ?_, ?_⟩
    · exact filter_eraseIdx_self bound (decide_eq_true same) (consistent.due now.key).once
    · intro other ne
      exact filter_eraseIdx_other bound (decide_eq_false (same ▸ ne.symm))
    · exact fun trap member => consistent.known trap (mem_of_mem_eraseIdx member)

theorem Consistent.add (consistent : s.Consistent latest) {queue : Ring Trap} {now : Trap}
    (valid : queue.Valid) (size : queue.size = s.queue.size)
    (nothing : ofKey now.key queue.contents = [])
    (others : ∀ other ≠ now.key, ofKey other queue.contents = ofKey other s.queue.contents)
    (knowns : ∀ trap ∈ queue.contents, s.Known trap.key) (known : s.Known now.key)
    {latest' : TrapKey → Option (ULong × ULong)}
    (same : ∀ other ≠ now.key, latest' other = latest other)
    (state : now.key.HasState → latest' now.key = now.state)
    (signed : ∀ state, latest' .alarm = some state → state.1.toNat < 128)
    (differs : now.key.HasState → ¬s.Indicated now) :
    ({ s with queue }.addTrap now).Consistent latest' := by
  have all : ∀ trap ∈ queue.contents ++ [now], s.Known trap.key := by
    intro trap member
    rcases mem_append.mp member with before | last
    · exact knowns trap before
    · rw [mem_singleton.mp last]
      exact known
  have own : ofKey now.key (queue.contents ++ [now]) = [now] := by
    rw [ofKey_append, nothing, ofKey_cons_self]
    rfl
  have other : ∀ other ≠ now.key,
      ofKey other (queue.contents ++ [now]) = ofKey other s.queue.contents := by
    intro other ne
    rw [ofKey_append, others other ne, ofKey_cons_other ne]
    exact append_nil _
  have room : queue.used + 2 ≤ queue.size := by
    have once : ∀ key, (ofKey key (queue.contents ++ [now])).length ≤ 1 := by
      intro key
      rcases eq_or_ne key now.key with rfl | ne
      · rw [own]
        exact Nat.le_refl _
      · rw [other key ne]
        exact (consistent.due key).once
    have bound := length_le all once
    have enough := consistent.size
    rw [length_append, Ring.length_contents, length_singleton] at bound
    omega
  have free := (Ring.first_ne_next_iff valid).mpr room
  have contents := Ring.contents_put valid free now
  have apart : (queue.put now (queue.next queue.last)).last ≠
      (queue.put now (queue.next queue.last)).first := free.symm
  rw [addTrap]
  dsimp only
  rw [if_neg apart]
  have next := Ring.next_lt (Nat.zero_lt_of_lt valid.first_lt) queue.last
  apply consistent.requeue (valid.put now next) size now.key _ same _ _ signed
  · rw [contents]
    exact all
  · rw [contents]
    exact other
  · rw [contents, own]
    refine ⟨Nat.le_refl _, fun stateful sent => ?_, fun stateful _ => ?_⟩
    · exact absurd ((state stateful).symm.trans sent) (differs stateful)
    · exact ⟨now, rfl, (state stateful).symm⟩

theorem Consistent.enqueue (consistent : s.Consistent latest) {env : TrapEnv}
    (enabled : env.enable_traps = true) {now : Trap} (known : s.Known now.key)
    (unset : ∀ port up index status, now = .linkport port up index status →
      (up, status) = (0xFF, 0xFF) → s.reported now.key ≠ none)
    {latest' : TrapKey → Option (ULong × ULong)}
    (same : ∀ other ≠ now.key, latest' other = latest other)
    (state : now.key.HasState → latest' now.key = now.state)
    (signed : ∀ state, latest' .alarm = some state → state.1.toNat < 128) :
    (s.trapEnqueueRelease env now).Consistent latest' := by
  obtain ⟨valid, size, nothing, others, knowns⟩ := consistent.removed now
  have cells : ∀ t, s.trapLookup now = some t → (s.queue.cells t).key = now.key := by
    intro t found
    rcases consistent.trapLookup_cases now with ⟨nowhere, -⟩ | ⟨i, bound, cell, key⟩
    · rw [nowhere] at found
      cases found
    · rw [cell] at found
      rw [← Option.some_injective _ found, ← Ring.getElem_contents bound]
      exact key
  have decides := consistent.decides env known cells unset
  rw [trapEnqueueRelease]
  generalize s.trapDecide env now (s.trapLookup now) = decision at decides ⊢
  cases decides with
  | indicated stateful indicated =>
    apply consistent.requeue valid size now.key knowns same others _ signed
    rw [nothing, state stateful]
    exact ⟨Nat.zero_le _, fun _ _ => rfl, fun _ differs => absurd indicated differs⟩
  | updates cell differs =>
    rcases consistent.trapLookup_cases now with ⟨nowhere, -⟩ | ⟨i, bound, place, key⟩
    · rw [nowhere] at cell
      cases cell
    · rw [place] at cell
      obtain rfl := Option.some_injective _ cell
      have used := Ring.length_contents ▸ bound
      have once := (consistent.due now.key).once
      have contents := Ring.contents_set consistent.valid used now
      have valid' : (s.queue.set (s.queue.index i) now).Valid :=
        ⟨consistent.valid.first_lt, consistent.valid.last_lt⟩
      apply consistent.requeue valid' rfl now.key _ same _ _ signed
      · intro trap member
        rw [contents] at member
        rcases mem_or_eq_of_mem_set member with before | rfl
        · exact consistent.known trap before
        · exact known
      · intro other ne
        rw [contents]
        exact filter_set_other bound (decide_eq_false (key ▸ ne.symm)) (decide_eq_false ne.symm)
      · have single : ofKey now.key (s.queue.contents.set i now) = [now] :=
          filter_set_self bound (decide_eq_true key) once (decide_eq_true rfl)
        rw [contents, single]
        refine ⟨Nat.le_refl _, fun stateful sent => ?_, fun stateful _ => ?_⟩
        · exact absurd ((state stateful).symm.trans sent) (differs stateful)
        · exact ⟨now, rfl, (state stateful).symm⟩
  | adds trap_countdown alarm_countdown differs =>
    have counting : Consistent { s with trap_countdown, alarm_countdown } latest :=
      consistent.congr rfl rfl rfl rfl rfl rfl rfl
    have added := counting.add valid size nothing others knowns known same state signed differs
    exact added.trapTry enabled

end TrapDefer
end Uos
