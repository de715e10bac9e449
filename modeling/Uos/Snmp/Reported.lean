import Uos.Library.Execution
import Uos.Snmp.TrapQueue

/-!
# What the queue of traps holds

Whatever the events and the failures, the queue holds one trap for each link, port and alarm whose
state was not sent, and nothing else.
-/

namespace Uos

open Function Option BitVec

/-- The state of a link, a port or the alarm that a call reports. -/
def TrapCall.event : TrapCall → Option (TrapKey × ULong × ULong)
  | .link up index status => some (.linkport false index.toNat, up, status)
  | .port up index status => some (.linkport true index.toNat, up, status)
  | .alarm state => some (.alarm, state, 0)
  | .authFailure | .coldStart .. | .poll .. => none

namespace TrapDefer

variable {s : TrapDefer} {latest : TrapKey → Option (ULong × ULong)}

/-- A call at which the queue is not cleared, because traps are enabled and the time is not out. -/
def Keeps (env : TrapEnv) (s : TrapDefer) (call : TrapCall) : Prop :=
  env.enable_traps = true ∧ ∀ since_ms, call = .poll since_ms → s.queue.contents = [] ∨
    ¬s.TimesOut ((s.sinceAttempt since_ms / 100).setWidth 8)

/-- The state that a call reports fits into a trap: a link or a port has a byte for each of its
values, which are not both the mark of a state that was never sent, and the state of the alarm is a
`signed char`. -/
def Fits (s : TrapDefer) : TrapCall → Prop
  | .link up index status => up.toNat < 256 ∧ status.toNat < 256 ∧
      ((up, status) = (0xFF, 0xFF) → s.reported (.linkport false index.toNat) ≠ none)
  | .port up index status => up.toNat < 256 ∧ status.toNat < 256 ∧
      ((up, status) = (0xFF, 0xFF) → s.reported (.linkport true index.toNat) ≠ none)
  | .alarm alarm => alarm.toNat < 128
  | _ => True

/-- The state of the last event for each key, behind a call. -/
def latestBehind (latest : TrapKey → Option (ULong × ULong)) (call : TrapCall) :
    TrapKey → Option (ULong × ULong) :=
  match call.event with
  | some (key, state) => Function.update latest key (some state)
  | none => latest

theorem narrow_widen {value : ULong} (byte : value.toNat < 256) :
    (value.setWidth 8).setWidth 32 = value := by
  apply eq_of_toNat_eq
  rw [toNat_setWidth, toNat_setWidth]
  omega

theorem Consistent.linkport (consistent : s.Consistent latest) {env : TrapEnv}
    (enabled : env.enable_traps = true) {port : Bool} {up index status : ULong}
    (up_byte : up.toNat < 256) (status_byte : status.toNat < 256)
    (unset : (up, status) = (0xFF, 0xFF) → s.reported (.linkport port index.toNat) ≠ none)
    {s' : TrapDefer} (accepted : s.deferLinkport port env up index status = some s') :
    s'.Consistent (Function.update latest (.linkport port index.toNat) (some (up, status))) := by
  rw [deferLinkport, enabled, if_neg (by decide)] at accepted
  have bound : index < (if port = true then s.ports else s.links).setWidth 32 := by
    by_contra outside
    rw [if_neg outside] at accepted
    cases accepted
  rw [if_pos bound] at accepted
  obtain rfl := some_injective _ accepted
  have less : index.toNat < (if port = true then s.ports else s.links).toNat := by
    have values := lt_def.mp bound
    rw [toNat_setWidth] at values
    exact Nat.lt_of_lt_of_le values (Nat.mod_le _ _)
  have index_byte : index.toNat < 256 := Nat.lt_trans less (BitVec.isLt _)
  have narrow : (index.setWidth 8).toNat = index.toNat := by
    rw [toNat_setWidth]
    exact Nat.mod_eq_of_lt index_byte
  have key : (Trap.linkport port (up.setWidth 8) (index.setWidth 8) (status.setWidth 8)).key =
      .linkport port index.toNat := by
    rw [Trap.key, narrow]
  apply consistent.enqueue enabled
  · rw [key]
    exact less
  · intro port' up' index' status' same both
    obtain ⟨-, rfl, -, rfl⟩ := Trap.linkport.inj same
    obtain ⟨ups, statuses⟩ := Prod.mk.inj both
    rw [key]
    apply unset
    rw [← narrow_widen up_byte, ← narrow_widen status_byte, ups, statuses]
    rfl
  · intro other ne
    rw [key] at ne
    exact update_of_ne ne ..
  · intro _
    rw [key, update_self, Trap.state, narrow_widen up_byte, narrow_widen status_byte]
  · intro state
    rw [update_of_ne (by simp)]
    exact consistent.signed state

theorem Consistent.stateless (consistent : s.Consistent latest) {env : TrapEnv}
    (enabled : env.enable_traps = true) {now : Trap} (known : s.Known now.key)
    (stateless : ¬now.key.HasState) : (s.trapEnqueueRelease env now).Consistent latest := by
  apply consistent.enqueue enabled known
  · rintro port up index status rfl
    exact absurd trivial stateless
  · exact fun _ _ => rfl
  · exact fun stateful => absurd stateful stateless
  · exact consistent.signed

theorem Consistent.alarmEvent (consistent : s.Consistent latest) {env : TrapEnv}
    (enabled : env.enable_traps = true) {alarm : ULong} (signed : alarm.toNat < 128) :
    (s.trapDeferAlarm env alarm).Consistent (Function.update latest .alarm (some (alarm, 0))) := by
  rw [trapDeferAlarm, if_pos enabled]
  apply consistent.enqueue enabled
  · exact trivial
  · exact nofun
  · exact fun other ne => update_of_ne ne ..
  · intro _
    rw [Trap.state, narrow_widen (Nat.lt_trans signed (by decide))]
    exact update_self ..
  · intro state
    rw [update_self]
    rintro same
    obtain rfl := some_injective _ same
    exact signed

theorem Consistent.delayUpdate (consistent : s.Consistent latest) {since_ds : UChar}
    (kept : s.queue.contents = [] ∨ ¬s.TimesOut since_ds) :
    (s.trapDelayUpdate since_ds).Consistent latest := by
  rw [trapDelayUpdate]
  dsimp only
  split_ifs with out
  · have empty : s.queue.first = s.queue.last := by
      rcases kept with nothing | inTime
      · exact (Ring.contents_eq_nil_iff consistent.valid).mp nothing
      · exact absurd out inTime
    have same : ({ s.queue with last := s.queue.first } : Ring Trap) = s.queue :=
      congrArg (fun last => { s.queue with last }) empty
    exact consistent.congr same rfl rfl rfl rfl rfl rfl
  · exact consistent.congr rfl rfl rfl rfl rfl rfl rfl

theorem Consistent.step (consistent : s.Consistent latest) {env : TrapEnv} {call : TrapCall}
    (keeps : Keeps env s call) (fits : s.Fits call) {s' : TrapDefer}
    (accepted : s.step env call = some s') : s'.Consistent (latestBehind latest call) := by
  obtain ⟨enabled, keeps⟩ := keeps
  cases call with
  | link up index status =>
    exact consistent.linkport enabled fits.1 fits.2.1 fits.2.2 accepted
  | port up index status =>
    exact consistent.linkport enabled fits.1 fits.2.1 fits.2.2 accepted
  | alarm alarm =>
    obtain rfl := some_injective _ accepted
    exact consistent.alarmEvent enabled fits
  | authFailure =>
    obtain rfl := some_injective _ accepted
    rw [trapDeferAuthFailure]
    split_ifs
    · exact consistent.stateless enabled trivial id
    · exact consistent
  | coldStart reset_counter =>
    obtain rfl := some_injective _ accepted
    rw [trapDeferColdStart, if_pos enabled]
    exact consistent.stateless enabled trivial id
  | poll since_ms =>
    obtain rfl := some_injective _ accepted
    rw [trapDeferPoll]
    split_ifs
    · exact consistent
    · dsimp only
      split_ifs
      · have tried := (consistent.delayUpdate (keeps since_ms rfl)).trapTry enabled
        exact tried.congr rfl rfl rfl rfl rfl rfl rfl
      · exact consistent.congr rfl rfl rfl rfl rfl rfl rfl

theorem consistent_init (max_delay_ds : ULong) (links_count ports_count : Nat) (cells : Nat → Trap)
    (trap_countdown : Nat → UChar) :
    (trapDeferInit max_delay_ds links_count ports_count cells trap_countdown).Consistent
      fun _ => none where
  valid := by
    constructor <;> exact Nat.lt_of_lt_of_le (show 0 < 4 by decide) (by
      simp only [trapDeferInit, Nat.add_assoc]
      exact Nat.le_add_right ..)
  size := by
    have links := Nat.mod_le links_count (2 ^ 8)
    have ports := Nat.mod_le ports_count (2 ^ 8)
    simp only [trapDeferInit, toNat_ofNat]
    omega
  known := nofun
  due key := ⟨Nat.zero_le _, fun _ _ => rfl, fun _ differs => absurd rfl differs⟩
  keys _ _ := nofun
  flags _ _ _ := rfl
  alarm := rfl
  signed _ := nofun
  overflows := rfl

end TrapDefer

/-- The queue and, for each link, port and alarm, the state of its last event. -/
structure TrapLog extends TrapDefer where
  latest : TrapKey → Option (ULong × ULong) := fun _ => none

namespace TrapLog

def step (env : TrapEnv) (s : TrapLog) (call : TrapCall) : Option TrapLog :=
  (s.toTrapDefer.step env call).map fun u =>
    { toTrapDefer := u, latest := TrapDefer.latestBehind s.latest call }

/-- At most one trap is queued for each key, no trap was lost because the queue was full, and for
each link, port and the alarm exactly one trap is queued, with the state of the last event, if this
is not the state that was sent last, and none otherwise. -/
structure Reports (s : TrapLog) : Prop where
  once : ∀ key, (ofKey key s.queue.contents).length ≤ 1
  room : s.overflows = 0
  waits : ∀ key, key.HasState → s.latest key ≠ (s.reported key).bind Trap.state →
    ∃ trap, ofKey key s.queue.contents = [trap] ∧ trap.state = s.latest key
  sent : ∀ key, key.HasState → s.latest key = (s.reported key).bind Trap.state →
    ofKey key s.queue.contents = []

/-- A call at which nothing goes wrong. -/
def FittingStep (s s' : TrapLog) : Prop :=
  ∃ env call, TrapDefer.Keeps env s.toTrapDefer call ∧ s.Fits call ∧ s.step env call = some s'

/-- The variables behind `trap_defer_init`. -/
def start (max_delay_ds : ULong) (links_count ports_count : Nat) (cells : Nat → Trap)
    (trap_countdown : Nat → UChar) : TrapLog where
  toTrapDefer := .trapDeferInit max_delay_ds links_count ports_count cells trap_countdown

/-- As long as nothing goes wrong, the queue holds just what is to be sent. -/
theorem queue_reports {max_delay_ds : ULong} {links_count ports_count : Nat} {cells : Nat → Trap}
    {trap_countdown : Nat → UChar} {s : TrapLog}
    (run : Relation.ReflTransGen FittingStep
      (start max_delay_ds links_count ports_count cells trap_countdown) s) : s.Reports := by
  have known : s.Consistent s.latest := by
    refine run_invariant (fun s : TrapLog => s.Consistent s.latest) ?_
      (TrapDefer.consistent_init ..) run
    rintro s s' consistent ⟨env, call, keeps, fits, stepped⟩
    obtain ⟨u, accepted, rfl⟩ := map_eq_some_iff.mp stepped
    exact consistent.step keeps fits accepted
  exact ⟨fun key => (known.due key).once, known.overflows, fun key => (known.due key).waits,
    fun key => (known.due key).sent⟩

def failing : TrapEnv where
  enable_traps := true
  enable_authen_traps := true
  user_addr := 0
  trap_defer_delay_ds := 0
  sends _ := false

def behind (up status : ULong) : TrapLog :=
  ((start 0 1 0 (fun _ => .alarm 0) fun _ => 0).step failing (.link up 0 status)).getD
    (start 0 1 0 (fun _ => .alarm 0) fun _ => 0)

/-- A link that goes down. -/
theorem behind_reports : (behind 0 5).Reports := by
  have keeps : TrapDefer.Keeps failing (start 0 1 0 (fun _ => .alarm 0) fun _ => 0).toTrapDefer
      (.link 0 0 5) := ⟨rfl, nofun⟩
  have fits : (start 0 1 0 (fun _ => .alarm 0) fun _ => 0).Fits (.link 0 0 5) :=
    ⟨by decide, by decide, nofun⟩
  exact queue_reports (.single ⟨failing, _, keeps, fits, rfl⟩)

/-- A status that does not fit into a byte is cut off. -/
theorem behind_cut : ¬(behind 1 256).Reports := by
  intro reports
  have queued :
      ofKey (.linkport false 0) (behind 1 256).queue.contents = [.linkport false 1 0 0] := by
    decide +kernel
  have differs : (behind 1 256).latest (.linkport false 0) ≠
      ((behind 1 256).reported (.linkport false 0)).bind Trap.state := by
    decide +kernel
  obtain ⟨trap, single, state⟩ := reports.waits (.linkport false 0) trivial differs
  rw [queued] at single
  rw [← (List.cons.inj single).1] at state
  exact absurd state (by decide +kernel)

end TrapLog
end Uos
