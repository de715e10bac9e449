import Uos.Library.Rings
import Uos.Net.Bytes

/-!
# Deferred traps

The queue of traps of `snmp/trap-defer.c`.
-/

namespace Uos

/-- A `trap_t`; `port` says whether the type of a `linkport` is `TRAP_PORT`. -/
inductive Trap
  | coldStart (reset_counter : UShort)
  | alarm (state : UChar)
  | linkport (port : Bool) (up index status : UChar)
  | authFailure (user_addr : ULong)
  deriving DecidableEq

/-- The type of a trap, with the index of a link or a port. -/
inductive TrapKey
  | coldStart
  | alarm
  | linkport (port : Bool) (index : Nat)
  | authFailure
  deriving DecidableEq

/-- What `trap_lookup` compares. -/
def Trap.key : Trap → TrapKey
  | coldStart _ => .coldStart
  | alarm _ => .alarm
  | linkport port _ index _ => .linkport port index.toNat
  | authFailure _ => .authFailure

/-- What a call finds: the flags and the address of the agent, what is stored of
`trap_defer_delay_ds`, and whether sending the trap in a cell of the queue succeeds. -/
structure TrapEnv where
  enable_traps : Bool
  enable_authen_traps : Bool
  user_addr : ULong
  trap_defer_delay_ds : UChar
  sends : Nat → Bool

/-- The variables of `trap-defer.c`; `alarm_state` is a `signed char`.  Besides, for each key the
trap that was sent last, and how often a trap was lost because the queue was full. -/
structure TrapDefer where
  queue : Ring Trap
  links : UChar
  ports : UChar
  trap_countdown : Nat → UChar
  trap_flag : Nat → UChar × UChar
  alarm_countdown : UChar := 0
  alarm_state : UChar
  since_acc_ms : UShort := 0
  delay_ds : UChar := 0
  delay_limit_ds : UChar
  reported : TrapKey → Option Trap := fun _ => none
  overflows : Nat := 0

namespace TrapDefer

/-- `trap_defer_init`, where the memory is granted; the queue and the countdowns are what the memory
holds. -/
def trapDeferInit (max_delay_ds : ULong) (links_count ports_count : Nat) (cells : Nat → Trap)
    (trap_countdown : Nat → UChar) : TrapDefer where
  queue := { size := 4 + links_count + links_count + ports_count + ports_count, cells }
  links := .ofNat 8 links_count
  ports := .ofNat 8 ports_count
  trap_countdown
  trap_flag _ := (0xFF, 0xFF)
  alarm_state := 0xFF
  delay_limit_ds :=
    let limit : UChar := max_delay_ds.setWidth 8 + 1
    if limit = 0 then limit - 1 else limit

def countDown (since_ds countdown : UChar) : UChar :=
  if since_ds < countdown then countdown - since_ds else 0

/-- The queue is cleared by `trap_delay_update`. -/
def TimesOut (since_ds : UChar) (s : TrapDefer) : Prop :=
  (s.delay_limit_ds.toNat : Int) - s.delay_ds.toNat < since_ds.toNat

instance (since_ds : UChar) (s : TrapDefer) : Decidable (s.TimesOut since_ds) :=
  inferInstanceAs (Decidable (_ < _))

/-- `trap_delay_update` -/
def trapDelayUpdate (since_ds : UChar) (s : TrapDefer) : TrapDefer :=
  let s := { s with
    trap_countdown := fun i =>
      if i < s.ports.toNat + s.links.toNat then countDown since_ds (s.trap_countdown i)
      else s.trap_countdown i
    alarm_countdown := countDown since_ds s.alarm_countdown }
  if s.TimesOut since_ds then
    { s with queue := { s.queue with last := s.queue.first }, delay_ds := 0 }
  else { s with delay_ds := since_ds + s.delay_ds }

/-- `trap_index` -/
def trapIndex (s : TrapDefer) (port : Bool) (index : Nat) : Nat :=
  if port = true then index + s.links.toNat else index

/-- `trap_lookup`: the cell. -/
def trapLookup (trap : Trap) (s : TrapDefer) : Option Nat :=
  s.queue.lookup (fun t => t.key = trap.key) s.queue.size s.queue.last

/-- `trap_should_delay` -/
def trapShouldDelay (s : TrapDefer) : Trap → Bool
  | .linkport port _ index _ => s.trap_countdown (s.trapIndex port index.toNat) ≠ 0
  | .alarm _ => s.alarm_countdown ≠ 0
  | .coldStart _ | .authFailure _ => false

/-- `trap_decide`; `queued` is a cell of the queue. -/
def trapDecide (env : TrapEnv) (now : Trap) (queued : Option Nat) (s : TrapDefer) :
    Int × TrapDefer :=
  match now with
  | .coldStart _ => (1, s)
  | .authFailure user_addr =>
    match queued with
    | some t => (-1, { s with queue := s.queue.set t (.authFailure user_addr) })
    | none => (1, s)
  | .alarm state =>
    if s.alarm_state.toInt = state.toNat then (0, s)
    else if queued.map s.queue.cells = some (.alarm state) then (-1, s)
    else
      (1, { s with
        alarm_countdown :=
          if s.alarm_state.toInt < state.toNat then 0 else env.trap_defer_delay_ds })
  | .linkport port up index status =>
    let i := s.trapIndex port index.toNat
    let add : Int × TrapDefer :=
      (1, { s with
        trap_countdown := Function.update s.trap_countdown i
          (if up < (s.trap_flag i).1 then 0 else env.trap_defer_delay_ds) })
    if s.trap_flag i = (up, status) then (0, s)
    else
      match queued with
      | none => add
      | some t =>
        match s.queue.cells t with
        | .linkport port' up' index' _ =>
          if up = up' then
            (-1, { s with queue := s.queue.set t (.linkport port' up' index' status) })
          else add
        | _ => add

/-- `send_trap`, for the trap in a cell. -/
def sendTrap (env : TrapEnv) (cell : Nat) (trap : Trap) (s : TrapDefer) : Bool × TrapDefer :=
  let sent (s : TrapDefer) : Bool × TrapDefer :=
    if env.sends cell = true then
      (true, { s with reported := Function.update s.reported trap.key (some trap) })
    else (false, s)
  match trap with
  | .authFailure _ => if env.enable_authen_traps = true then sent s else (true, s)
  | .coldStart _ => if env.enable_traps = true then sent s else (true, s)
  | .alarm state =>
    if env.enable_traps = true then
      match sent s with
      | (false, s) => (false, s)
      | (true, s) =>
        (true, { s with alarm_countdown := env.trap_defer_delay_ds, alarm_state := state })
    else (true, s)
  | .linkport port up index status =>
    if env.enable_traps = true then
      match sent s with
      | (false, s) => (false, s)
      | (true, s) =>
        let i := s.trapIndex port index.toNat
        (true, { s with
          trap_countdown := Function.update s.trap_countdown i env.trap_defer_delay_ds
          trap_flag := Function.update s.trap_flag i (up, status) })
    else (true, s)

/-- The loop of `trap_try`, from the cell `t` to the cell `e`. -/
def tryLoop (env : TrapEnv) (e : Nat) : Nat → Nat → Int → TrapDefer → Int × TrapDefer
  | 0, t, result, s => (result, { s with queue := { s.queue with first := t } })
  | n + 1, t, result, s =>
    if t = e then (result, { s with queue := { s.queue with first := t } })
    else
      let trap := s.queue.cells t
      if s.trapShouldDelay trap = true then
        tryLoop env e n (s.queue.next t) result
          { s with queue := s.queue.put trap (s.queue.next s.queue.last), delay_ds := 0 }
      else
        match s.sendTrap env t trap with
        | (true, s) => tryLoop env e n (s.queue.next t) 1 { s with delay_ds := 0 }
        | (false, s) => (-1, { s with queue := { s.queue with first := t } })

/-- `trap_try`; no trap is visited twice, so the loop ends after at most as many turns as there are
cells. -/
def trapTry (env : TrapEnv) (s : TrapDefer) : Int × TrapDefer :=
  tryLoop env s.queue.last s.queue.size s.queue.first 0 s

/-- The queue without the trap that `trap_lookup` found. -/
def without (t : Option Nat) (queue : Ring Trap) : Ring Trap :=
  match t with
  | some t => queue.remove queue.size t
  | none => queue

/-- A trap is put into the queue; if the queue is full, the oldest trap is lost. -/
def addTrap (trap : Trap) (s : TrapDefer) : TrapDefer :=
  let s := { s with queue := s.queue.put trap (s.queue.next s.queue.last) }
  if s.queue.last = s.queue.first then
    { s with queue := s.queue.take, overflows := s.overflows + 1 }
  else s

/-- `trap_enqueue_release` -/
def trapEnqueueRelease (env : TrapEnv) (trap : Trap) (s : TrapDefer) : TrapDefer :=
  let t := s.trapLookup trap
  let (action, s) := s.trapDecide env trap t
  if action < 0 then s
  else
    let s := { s with queue := without t s.queue }
    if action = 0 then s else ((s.addTrap trap).trapTry env).2

/-- The time since the last attempt to send traps, in `trap_defer_poll`. -/
def sinceAttempt (since_ms : UShort) (s : TrapDefer) : UShort :=
  let bounded : UShort := if 255 * 99 < since_ms then 255 * 99 else since_ms
  let sum := bounded + s.since_acc_ms
  if sum < s.since_acc_ms then 255 * 100 else sum

/-- `trap_defer_poll` -/
def trapDeferPoll (env : TrapEnv) (since_ms : UShort) (s : TrapDefer) : Int × TrapDefer :=
  if since_ms = 0 then (0, s)
  else
    let since_ms := s.sinceAttempt since_ms
    if 100 ≤ since_ms then
      let (result, s) := (s.trapDelayUpdate ((since_ms / 100).setWidth 8)).trapTry env
      (result, { s with since_acc_ms := since_ms % 100 })
    else (0, { s with since_acc_ms := since_ms })

/-- `trap_defer_cold_start` -/
def trapDeferColdStart (env : TrapEnv) (reset_counter : UShort) (s : TrapDefer) : TrapDefer :=
  if env.enable_traps = true then s.trapEnqueueRelease env (.coldStart reset_counter) else s

/-- `trap_defer_auth_failure` -/
def trapDeferAuthFailure (env : TrapEnv) (s : TrapDefer) : TrapDefer :=
  if env.enable_authen_traps = true then s.trapEnqueueRelease env (.authFailure env.user_addr)
  else s

/-- `trap_defer_link` and `trap_defer_port`, where the assertion on the index holds. -/
def deferLinkport (port : Bool) (env : TrapEnv) (up index status : ULong) (s : TrapDefer) :
    Option TrapDefer :=
  if env.enable_traps = false then some s
  else if index < (if port = true then s.ports else s.links).setWidth 32 then
    some (s.trapEnqueueRelease env
      (.linkport port (up.setWidth 8) (index.setWidth 8) (status.setWidth 8)))
  else none

/-- `trap_defer_link` -/
def trapDeferLink : TrapEnv → ULong → ULong → ULong → TrapDefer → Option TrapDefer :=
  deferLinkport false

/-- `trap_defer_port` -/
def trapDeferPort : TrapEnv → ULong → ULong → ULong → TrapDefer → Option TrapDefer :=
  deferLinkport true

/-- `trap_defer_alarm` -/
def trapDeferAlarm (env : TrapEnv) (alarm : ULong) (s : TrapDefer) : TrapDefer :=
  if env.enable_traps = true then s.trapEnqueueRelease env (.alarm (alarm.setWidth 8)) else s

end TrapDefer

/-- A call of a function of `trap-defer.h`. -/
inductive TrapCall
  | link (up index status : ULong)
  | port (up index status : ULong)
  | alarm (alarm : ULong)
  | authFailure
  | coldStart (reset_counter : UShort)
  | poll (since_ms : UShort)
  deriving DecidableEq

def TrapDefer.step (env : TrapEnv) (s : TrapDefer) : TrapCall → Option TrapDefer
  | .link up index status => s.trapDeferLink env up index status
  | .port up index status => s.trapDeferPort env up index status
  | .alarm alarm => some (s.trapDeferAlarm env alarm)
  | .authFailure => some (s.trapDeferAuthFailure env)
  | .coldStart reset_counter => some (s.trapDeferColdStart env reset_counter)
  | .poll since_ms => some (s.trapDeferPoll env since_ms).2

end Uos
