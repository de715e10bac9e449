import Uos.Flash.At45dbxx
import Uos.Flash.M25pxx
import Uos.Flash.SdhcSpi

/-!
# The locks of the flash drivers

What each command does to the number of times that the calling task holds the lock of its device.
Two functions return without releasing it: `at45dbxx_erase_sectors` when a sector is not erased, and
`sd_connect` when a data token does not come.
-/

namespace Uos

open Command SpiFlash

namespace SpiFlash

variable {Device Own Result Other : Type}

/-- How often a lock is held, and was released without being held. -/
def Held (depth strays : Nat) (m : SpiFlash Device Own) : Prop :=
  m.depth = depth ∧ m.strays = strays

/-- The same where a command leaves, if it returns. -/
def HeldAtExit (depth strays : Nat) (exit : FlashExit) (m : SpiFlash Device Own) : Prop :=
  exit ≠ .hangs → Held depth strays m

/-- A command takes one number of holds to another one, or to a third one where it fails. -/
def Holds (command : Command (SpiFlash Device Own) FlashExit Result) (before after left : Nat) :
    Prop :=
  ∀ strays, Meets (Held before strays) command (fun _ => Held after strays)
    (HeldAtExit left strays)

/-- A command returns as often as it holds the lock. -/
def Neutral (command : Command (SpiFlash Device Own) FlashExit Result) : Prop :=
  ∀ depth, Holds command depth depth depth

/-- If a command returns, the lock is held as often as before, and was released by no one else. -/
def GivesBack (command : Command (SpiFlash Device Own) FlashExit Result)
    (m : SpiFlash Device Own) : Prop :=
  (command m).1 ≠ .error .hangs → (command m).2.depth = m.depth ∧ (command m).2.strays = m.strays

section Rules

variable {command : Command (SpiFlash Device Own) FlashExit Result}
  {next : Result → Command (SpiFlash Device Own) FlashExit Other}
  {before middle after left depth : Nat}

theorem Holds.bind (first : Holds command before middle left)
    (second : ∀ value, Holds (next value) middle after left) :
    Holds (command >>= next) before after left :=
  fun strays => meets_bind (first strays) fun value => second value strays

theorem holds_pure {value : Result} :
    Holds (pure value : Command (SpiFlash Device Own) FlashExit Result) depth depth left :=
  fun _ => meets_pure fun _ held => held

theorem holds_state :
    Holds (state : Command (SpiFlash Device Own) FlashExit _) depth depth left :=
  fun _ _ held => held

theorem holds_change {function : SpiFlash Device Own → SpiFlash Device Own}
    (keeps : ∀ m, (function m).depth = m.depth ∧ (function m).strays = m.strays) :
    Holds (change function) depth depth left :=
  fun _ => meets_change fun m held => ⟨(keeps m).1.trans held.1, (keeps m).2.trans held.2⟩

theorem holds_store (bytes : List UChar) :
    Holds (store bytes : Command (SpiFlash Device Own) FlashExit Unit) depth depth left :=
  holds_change fun _ => ⟨rfl, rfl⟩

theorem holds_lock :
    Holds (lock : Command (SpiFlash Device Own) FlashExit Unit) depth (depth + 1) left :=
  fun _ => meets_change fun _ held => ⟨congrArg (· + 1) held.1, held.2⟩

theorem holds_unlock :
    Holds (unlock : Command (SpiFlash Device Own) FlashExit Unit) (depth + 1) depth left := by
  intro strays
  apply meets_change
  intro m held
  have locked : m.depth ≠ 0 := by rw [held.1]; exact Nat.succ_ne_zero depth
  rw [if_neg locked]
  exact ⟨congrArg (· - 1) held.1, held.2⟩

theorem Holds.cleaning {cleanup : SpiFlash Device Own → SpiFlash Device Own} {last : Nat}
    (holds : Holds command before after left)
    (cleans : ∀ strays m, Held left strays m → Held last strays (cleanup m)) :
    Holds (cleaning cleanup command) before after last := by
  intro strays m held
  have result := holds strays m held
  rw [SpiFlash.cleaning]
  generalize command m = outcome at result ⊢
  obtain ⟨exit | value, m'⟩ := outcome
  · cases exit with
    | hangs => exact fun impossible => absurd rfl impossible
    | _ => exact fun _ => cleans strays m' (result (by decide))
  · exact result

theorem Holds.unlocking (holds : Holds command before after (left + 1)) :
    Holds (unlocking command) before after left := by
  refine holds.cleaning fun strays m held => ?_
  exact (holds_unlock : Holds _ _ _ left) strays m held

theorem Holds.ignoring {command : Command (SpiFlash Device Own) FlashExit Unit}
    (holds : Holds command before after after) : Holds (ignoring command) before after left := by
  intro strays m held
  have result := holds strays m held
  rw [SpiFlash.ignoring]
  generalize command m = outcome at result ⊢
  obtain ⟨exit | value, m'⟩ := outcome
  · cases exit with
    | hangs => exact fun impossible => absurd rfl impossible
    | _ => exact result (by decide)
  · exact result

theorem Neutral.bind (first : Neutral command) (second : ∀ value, Neutral (next value)) :
    Neutral (command >>= next) :=
  fun depth => (first depth).bind fun value => second value depth

theorem neutral_pure {value : Result} :
    Neutral (pure value : Command (SpiFlash Device Own) FlashExit Result) :=
  fun _ => holds_pure

theorem neutral_leave {exit : FlashExit} :
    Neutral (leave exit : Command (SpiFlash Device Own) FlashExit Result) :=
  fun _ _ => meets_leave fun _ held _ => held

theorem neutral_state : Neutral (state : Command (SpiFlash Device Own) FlashExit _) :=
  fun _ => holds_state

theorem neutral_store (bytes : List UChar) :
    Neutral (store bytes : Command (SpiFlash Device Own) FlashExit Unit) :=
  fun _ => holds_store bytes

theorem holds_ite {condition : Prop} [Decidable condition]
    {yes no : Command (SpiFlash Device Own) FlashExit Result} (first : Holds yes before after left)
    (second : Holds no before after left) :
    Holds (if condition then yes else no) before after left :=
  fun strays => meets_ite (fun _ => first strays) fun _ => second strays

theorem neutral_ite {condition : Prop} [Decidable condition]
    {yes no : Command (SpiFlash Device Own) FlashExit Result} (first : Neutral yes)
    (second : Neutral no) : Neutral (if condition then yes else no) :=
  fun depth => holds_ite (first depth) (second depth)

theorem holds_hangs :
    Holds (leave .hangs : Command (SpiFlash Device Own) FlashExit Result) before after left :=
  fun _ => meets_leave fun _ _ impossible => absurd rfl impossible

theorem holds_refuse {exit : FlashExit} :
    Holds (unlocking (leave exit) : Command (SpiFlash Device Own) FlashExit Result)
      (depth + 1) after depth := by
  apply Holds.unlocking
  exact fun _ => meets_leave fun _ held _ => held

theorem neutral_demand (condition : (Nat → UChar) → Bool) (exit : FlashExit) :
    Neutral (demand condition exit : Command (SpiFlash Device Own) FlashExit Unit) :=
  neutral_state.bind fun _ => neutral_ite neutral_pure neutral_leave

theorem neutral_poll {query : Command (SpiFlash Device Own) FlashExit UChar}
    (neutral : Neutral query) (fits : UChar → Bool) (limit : Nat) :
    Neutral (poll query fits limit) := by
  induction limit with
  | zero => exact neutral_leave
  | succ limit ih => exact neutral.bind fun _ => neutral_ite neutral_pure ih

theorem neutral_each {Item : Type} {body : Item → Command (SpiFlash Device Own) FlashExit Unit}
    (turn : ∀ item, Neutral (body item)) (items : List Item) : Neutral (each items body) :=
  fun depth strays => meets_each fun item _ => turn item depth strays

variable (spi : Spi Device)

theorem neutral_spimTrx (message : SpiMessage) (rx_data : Bool) :
    Neutral (spimTrx spi message rx_data : Command (SpiFlash Device Own) FlashExit _) := by
  intro depth strays m held
  rw [spimTrx]
  obtain ⟨ok, words, device⟩ := spi message m.device
  cases ok with
  | false => exact fun _ => held
  | true => exact held

variable (word_count : Nat) (cs_hold : Bool)

theorem neutral_send :
    Neutral (send spi word_count cs_hold : Command (SpiFlash Device Own) FlashExit Unit) :=
  neutral_state.bind fun _ => (neutral_spimTrx spi _ _).bind fun _ => neutral_pure

theorem neutral_receive :
    Neutral (receive spi word_count cs_hold : Command (SpiFlash Device Own) FlashExit Unit) :=
  (neutral_spimTrx spi _ _).bind fun _ => neutral_pure

theorem neutral_exchange :
    Neutral (exchange spi word_count cs_hold : Command (SpiFlash Device Own) FlashExit Unit) :=
  neutral_state.bind fun _ => (neutral_spimTrx spi _ _).bind fun _ => neutral_pure

theorem Neutral.unlocking (neutral : Neutral command) :
    Holds (unlocking command) (depth + 1) (depth + 1) depth :=
  Holds.unlocking (neutral (depth + 1))

theorem neutral_cyclicFunc
    {func : Nat → Nat → Nat → Command (SpiFlash Device Own) FlashExit (List UChar)}
    (turn : ∀ address cur_data size, Neutral (func address cur_data size))
    (limit address size : Nat) : Neutral (cyclicFunc limit address size func) := by
  have loop : ∀ limit address cur_data size depth,
      Holds (cyclicLoop func limit address cur_data size) (depth + 1) (depth + 1) depth := by
    intro limit
    induction limit with
    | zero => exact fun _ _ _ _ => holds_hangs
    | succ limit ih =>
      intro address cur_data size depth
      refine holds_ite holds_pure (holds_state.bind fun m => ?_)
      refine (turn address cur_data _).unlocking.bind fun first => ?_
      exact (ih _ _ _ depth).bind fun rest => holds_pure
  intro depth
  refine holds_lock.bind fun _ => ?_
  exact (loop limit address 0 size depth).bind fun _ => holds_unlock.bind fun _ => holds_pure

theorem Neutral.givesBack (neutral : Neutral command) (m : SpiFlash Device Own) :
    GivesBack command m := by
  intro returns
  have result := neutral m.depth m.strays m ⟨rfl, rfl⟩
  generalize command m = outcome at result returns ⊢
  obtain ⟨exit | value, m'⟩ := outcome
  · exact result fun hangs => returns (congrArg _ hangs)
  · exact result

end Rules
end SpiFlash
namespace At45dbxx

variable {Device : Type} (spi : Spi Device) (limit : Nat)

theorem neutral_readStatus : Neutral (readStatus spi) := by
  refine (neutral_store _).bind fun _ => (neutral_exchange spi 2 false).bind fun _ => ?_
  exact neutral_state.bind fun m => neutral_ite neutral_leave neutral_pure

theorem neutral_waitReady : Neutral (waitReady spi limit) :=
  neutral_poll (neutral_readStatus spi) _ limit

theorem holds_configure (status id : UChar) {depth : Nat} :
    Holds (configure status id : Command (Driver Device) FlashExit Unit)
      (depth + 1) (depth + 1) depth := by
  refine Holds.bind (holds_change ?_) fun _ => ?_
  · exact fun _ => ⟨rfl, rfl⟩
  · exact holds_ite holds_hangs (holds_change fun _ => ⟨rfl, rfl⟩)

theorem neutral_connect : Neutral (connect spi) := by
  intro depth
  refine holds_lock.bind fun _ => (holds_store _).bind fun _ => ?_
  refine (neutral_exchange spi 3 false).unlocking.bind fun _ => holds_state.bind fun m => ?_
  refine holds_ite holds_refuse ((neutral_readStatus spi).unlocking.bind fun status => ?_)
  exact holds_state.bind fun m => (holds_configure status _).bind fun _ => holds_unlock

theorem neutral_eraseAll : Neutral (eraseAll spi limit) := by
  intro depth
  refine holds_lock.bind fun _ => (holds_store _).bind fun _ => ?_
  refine (neutral_send spi 4 false).unlocking.bind fun _ => ?_
  exact (neutral_waitReady spi limit).unlocking.bind fun _ => holds_unlock

theorem neutral_eraseSector (sector_num : Nat) : Neutral (eraseSector spi limit sector_num) := by
  intro depth
  refine holds_lock.bind fun _ => holds_state.bind fun m => (holds_store _).bind fun _ => ?_
  refine (neutral_send spi 4 false).unlocking.bind fun _ => ?_
  exact (neutral_waitReady spi limit).unlocking.bind fun _ => holds_unlock

theorem neutral_writeOnePage (address : Nat) (data : List UChar) :
    Neutral (writeOnePage spi limit address data) := by
  refine (neutral_store _).bind fun _ => (neutral_send spi 4 true).bind fun _ => ?_
  refine (neutral_spimTrx spi _ _).bind fun _ => (neutral_store _).bind fun _ => ?_
  exact (neutral_send spi 4 false).bind fun _ => neutral_waitReady spi limit

theorem neutral_readOnePage (address size : Nat) : Neutral (readOnePage spi address size) := by
  refine (neutral_store _).bind fun _ => (neutral_send spi 5 true).bind fun _ => ?_
  exact neutral_spimTrx spi _ _

theorem neutral_write (page_num : Nat) (data : List UChar) :
    Neutral (write spi limit page_num data) := by
  refine neutral_state.bind fun m => ?_
  refine (neutral_cyclicFunc (fun address _ _ => ?_) limit _ _).bind fun _ => neutral_pure
  exact (neutral_writeOnePage spi limit address _).bind fun _ => neutral_pure

theorem neutral_read (page_num size : Nat) : Neutral (read spi limit page_num size) := by
  refine neutral_state.bind fun m => ?_
  exact neutral_cyclicFunc (fun address _ size => neutral_readOnePage spi address size) limit _ _

end At45dbxx

namespace NorFlash

variable {Device : Type} (spi : Spi Device) (limit : Nat)

theorem neutral_enableWrite : Neutral (enableWrite spi) :=
  (neutral_store _).bind fun _ => neutral_send spi 1 false

theorem neutral_readStatus : Neutral (readStatus spi) := by
  refine (neutral_store _).bind fun _ => (neutral_send spi 1 true).bind fun _ => ?_
  exact (neutral_receive spi 1 false).bind fun _ => neutral_state.bind fun _ => neutral_pure

theorem neutral_waitDone : Neutral (waitDone spi limit) :=
  neutral_poll (neutral_readStatus spi) _ limit

theorem holds_readId (word_count : Nat) {depth left : Nat} :
    Holds (readId spi word_count) depth depth left := by
  refine (holds_store _).bind fun _ => ?_
  refine (neutral_send spi 1 true depth).ignoring.bind fun _ => ?_
  exact (neutral_receive spi word_count false depth).ignoring

theorem neutral_eraseAllBy (command : UChar) : Neutral (eraseAllBy spi limit command) := by
  intro depth
  refine holds_lock.bind fun _ => (neutral_enableWrite spi).unlocking.bind fun _ => ?_
  refine (holds_store _).bind fun _ => (neutral_send spi 1 false).unlocking.bind fun _ => ?_
  exact (neutral_waitDone spi limit).unlocking.bind fun _ => holds_unlock

theorem holds_eraseSectorBy (width sector_num : Nat) {depth : Nat} :
    Holds (eraseSectorBy spi limit width sector_num) (depth + 1) (depth + 1) depth := by
  refine (neutral_enableWrite spi).unlocking.bind fun _ => holds_state.bind fun m => ?_
  refine (holds_store _).bind fun _ => (neutral_send spi _ false).unlocking.bind fun _ => ?_
  exact (neutral_waitDone spi limit).unlocking

theorem neutral_eraseSectorsBy (width sector_num nb_sectors : Nat) :
    Neutral (eraseSectorsBy spi limit width sector_num nb_sectors) := by
  intro depth
  refine holds_lock.bind fun _ => Holds.bind (fun strays => ?_) fun _ => holds_unlock
  exact meets_each fun i _ => holds_eraseSectorBy spi limit width _ strays

theorem neutral_writeOnePageBy (width address : Nat) (data : List UChar) :
    Neutral (writeOnePageBy spi limit width address data) := by
  refine (neutral_enableWrite spi).bind fun _ => (neutral_store _).bind fun _ => ?_
  refine (neutral_send spi _ true).bind fun _ => (neutral_spimTrx spi _ _).bind fun _ => ?_
  exact neutral_waitDone spi limit

theorem neutral_readOnePageBy (width address size : Nat) :
    Neutral (readOnePageBy spi width address size) := by
  refine (neutral_store _).bind fun _ => (neutral_send spi _ true).bind fun _ => ?_
  exact neutral_spimTrx spi _ _

theorem neutral_writeBy (width page_num : Nat) (data : List UChar) :
    Neutral (writeBy spi limit width page_num data) := by
  refine neutral_state.bind fun m => ?_
  refine (neutral_cyclicFunc (fun address _ _ => ?_) limit _ _).bind fun _ => neutral_pure
  exact (neutral_writeOnePageBy spi limit width address _).bind fun _ => neutral_pure

theorem neutral_readBy (width page_num size : Nat) :
    Neutral (readBy spi limit width page_num size) := by
  refine neutral_state.bind fun m => ?_
  exact neutral_cyclicFunc
    (fun address _ size => neutral_readOnePageBy spi width address size) limit _ _

end NorFlash

open NorFlash

theorem M25pxx.neutral_connect {Device : Type} (spi : Spi Device) (shifted : UChar → Nat) :
    Neutral (M25pxx.connect spi shifted) := by
  intro depth
  refine holds_lock.bind fun _ => (holds_readId spi 3).bind fun _ => holds_state.bind fun m => ?_
  refine holds_ite holds_refuse ?_
  refine Holds.bind (holds_change ?_) fun _ => holds_ite holds_hangs ?_
  · exact fun _ => ⟨rfl, rfl⟩
  · refine Holds.bind (holds_change ?_) fun _ => holds_unlock
    exact fun _ => ⟨rfl, rfl⟩

theorem S25fl.neutral_connect {Device : Type} (spi : Spi Device) : Neutral (S25fl.connect spi) := by
  intro depth
  refine holds_lock.bind fun _ => (holds_readId spi 5).bind fun _ => holds_state.bind fun m => ?_
  refine holds_ite holds_refuse ?_
  split
  · exact holds_refuse
  · split
    · exact holds_refuse
    · refine Holds.bind (holds_change ?_) fun _ => ?_
      · exact fun _ => ⟨rfl, rfl⟩
      · refine (holds_store _).bind fun _ => ?_
        exact (neutral_send spi 2 false).unlocking.bind fun _ => holds_unlock

namespace SdhcSpi

variable {Device : Type} {depth left : Nat}

theorem holds_set (function : SdhcOwn → SdhcOwn) :
    Holds (set function : Command (Driver Device) FlashExit Unit) depth depth left :=
  holds_change fun _ => ⟨rfl, rfl⟩

theorem holds_fill (count : Nat) :
    Holds (fill count : Command (Driver Device) FlashExit Unit) depth depth left :=
  holds_store _

theorem neutral_set (function : SdhcOwn → SdhcOwn) :
    Neutral (set function : Command (Driver Device) FlashExit Unit) :=
  fun _ => holds_set function

theorem neutral_fill (count : Nat) :
    Neutral (fill count : Command (Driver Device) FlashExit Unit) :=
  fun _ => holds_fill count

variable (spi : Spi Device) (limit : Nat)

theorem neutral_trx : Neutral (trx spi) :=
  neutral_state.bind fun _ => neutral_spimTrx spi _ _

theorem neutral_readWord : Neutral (readWord spi) := by
  refine (neutral_store _).bind fun _ => (neutral_trx spi).bind fun _ => ?_
  exact neutral_state.bind fun _ => neutral_pure

theorem neutral_waitDataToken (start : Option Nat) : Neutral (waitDataToken spi limit start) := by
  refine neutral_state.bind fun m => ?_
  split
  · exact neutral_pure
  · refine (neutral_set _).bind fun _ => ?_
    exact (neutral_poll (neutral_readWord spi) _ limit).bind fun _ => neutral_pure

theorem neutral_waitLineFree : Neutral (waitLineFree spi limit) :=
  (neutral_set _).bind fun _ => neutral_poll (neutral_readWord spi) _ limit

theorem neutral_command (bytes : List UChar) : Neutral (command spi bytes) := by
  refine (neutral_store _).bind fun _ => (neutral_trx spi).bind fun _ => ?_
  refine neutral_state.bind fun m => ?_
  split
  · exact neutral_pure
  · exact neutral_leave

theorem neutral_accepted (bytes : List UChar) : Neutral (accepted spi bytes) := by
  refine (neutral_command spi bytes).bind fun r1 => ?_
  exact (neutral_demand _ _).bind fun _ => neutral_pure

theorem neutral_initializeCard : Neutral (initializeCard spi limit) := by
  induction limit with
  | zero => exact neutral_leave
  | succ limit ih =>
    refine (neutral_command spi _).bind fun r1 => (neutral_demand _ _).bind fun _ => ?_
    refine (neutral_command spi _).bind fun r1 => neutral_state.bind fun m => ?_
    exact neutral_ite neutral_pure ih

theorem neutral_stopMultipleRead : Neutral (stopMultipleRead spi) := by
  refine (neutral_fill 16).bind fun _ => (neutral_set _).bind fun _ => ?_
  exact (neutral_accepted spi _).bind fun _ => neutral_pure

theorem neutral_stopMultipleWrite : Neutral (stopMultipleWrite spi limit) := by
  refine (neutral_waitLineFree spi limit).bind fun _ => (neutral_set _).bind fun _ => ?_
  refine (neutral_store _).bind fun _ => (neutral_trx spi).bind fun _ => ?_
  exact neutral_waitLineFree spi limit

variable (page_num size : Nat) (data : List UChar) (turns : Nat)

theorem neutral_initMultipleOp (read : Bool) :
    Neutral (initMultipleOp spi page_num read) := by
  refine (neutral_fill 16).bind fun _ => (neutral_set _).bind fun _ => ?_
  exact neutral_accepted spi _

theorem holds_ending {stop : Command (Driver Device) FlashExit Unit} (current : SdhcState)
    (holds : Holds stop depth depth left) : Holds (ending current stop) depth depth left := by
  refine holds_state.bind fun m => holds_ite ?_ holds_pure
  exact holds.bind fun _ => holds_set _

theorem neutral_beginReading (r1 : Option Nat) :
    Neutral (beginReading spi page_num r1) := by
  refine neutral_state.bind fun m => neutral_ite ?_ neutral_pure
  refine (neutral_initMultipleOp spi page_num true).bind fun r1 => ?_
  exact (neutral_set _).bind fun _ => neutral_pure

theorem neutral_beginWriting : Neutral (beginWriting spi page_num) := by
  refine neutral_state.bind fun m => neutral_ite ?_ neutral_pure
  exact (neutral_initMultipleOp spi page_num false).bind fun _ => neutral_set _

theorem neutral_transfers (sizes : List Nat) : Neutral (transfers spi sizes) := by
  refine neutral_each (fun size => ?_) sizes
  exact (neutral_set _).bind fun _ => (neutral_trx spi).bind fun _ => neutral_pure

theorem neutral_doReadOnePage (existing_data : Option Nat) :
    Neutral (doReadOnePage spi size existing_data) := by
  refine neutral_state.bind fun m => neutral_ite neutral_leave ?_
  refine (neutral_set _).bind fun _ => (neutral_trx spi).bind fun words => ?_
  refine (neutral_set _).bind fun _ => (neutral_fill 40).bind fun _ => ?_
  refine (neutral_transfers spi _).bind fun _ => (neutral_set _).bind fun _ => neutral_pure

theorem neutral_doWriteOnePage : Neutral (doWriteOnePage spi limit data) := by
  refine (neutral_waitLineFree spi limit).bind fun _ => (neutral_set _).bind fun _ => ?_
  refine (neutral_store _).bind fun _ => (neutral_trx spi).bind fun _ => ?_
  refine (neutral_set _).bind fun _ => (neutral_trx spi).bind fun _ => ?_
  refine (neutral_set _).bind fun _ => neutral_state.bind fun m => ?_
  refine (neutral_store _).bind fun _ => (neutral_transfers spi _).bind fun _ => ?_
  refine (neutral_set _).bind fun _ => ?_
  exact (neutral_poll (neutral_readWord spi) _ limit).bind fun _ => neutral_demand _ _

theorem neutral_readPages (existing_data : Option Nat) (size : Nat) :
    Neutral (readPages spi existing_data limit size) := by
  induction limit generalizing size with
  | zero => exact neutral_leave
  | succ limit ih =>
    refine neutral_state.bind fun m => (neutral_doReadOnePage spi _ _).bind fun page => ?_
    refine (neutral_set _).bind fun _ => neutral_ite neutral_pure ?_
    exact (ih _).bind fun rest => neutral_pure

theorem neutral_readLoop (r1 : Option Nat) :
    Neutral (readLoop spi limit page_num size turns r1) := by
  induction turns generalizing r1 with
  | zero => exact neutral_leave
  | succ turns ih =>
    refine Neutral.bind (fun depth => holds_ending _ ?_) fun _ => ?_
    · exact neutral_stopMultipleWrite spi limit depth
    refine (neutral_beginReading spi page_num r1).bind fun r1 => ?_
    refine neutral_state.bind fun m => neutral_ite ?_ ?_
    · refine (neutral_waitDataToken spi limit r1).bind fun r1 => ?_
      exact neutral_readPages spi limit r1 size
    · refine (neutral_stopMultipleRead spi).bind fun _ => (neutral_set _).bind fun _ => ?_
      exact ih r1

theorem neutral_read : Neutral (read spi limit page_num size) := by
  refine neutral_ite neutral_pure fun depth => holds_lock.bind fun _ => ?_
  refine (neutral_readLoop spi limit page_num size limit none).unlocking.bind fun data => ?_
  exact holds_unlock.bind fun _ => holds_pure

theorem neutral_writePages (data : List UChar) :
    Neutral (writePages spi limit turns data) := by
  induction turns generalizing data with
  | zero => exact neutral_leave
  | succ turns ih =>
    refine neutral_state.bind fun m => (neutral_doWriteOnePage spi limit _).bind fun _ => ?_
    exact (neutral_set _).bind fun _ => neutral_ite neutral_pure (ih _)

theorem neutral_writeLoop (data : List UChar) :
    Neutral (writeLoop spi limit page_num data turns) := by
  induction turns with
  | zero => exact neutral_leave
  | succ turns ih =>
    refine Neutral.bind (fun depth => holds_ending _ ?_) fun _ => ?_
    · exact neutral_stopMultipleRead spi depth
    refine (neutral_beginWriting spi page_num).bind fun _ => ?_
    refine neutral_state.bind fun m => neutral_ite (neutral_writePages spi limit limit data) ?_
    exact (neutral_stopMultipleWrite spi limit).bind fun _ => (neutral_set _).bind fun _ => ih

theorem neutral_write :
    Neutral (write spi limit page_num data) := by
  refine neutral_ite neutral_pure fun depth => holds_lock.bind fun _ => ?_
  exact (neutral_writeLoop spi limit page_num limit data).unlocking.bind fun _ => holds_unlock

theorem neutral_flush : Neutral (flush spi limit) := by
  intro depth
  refine holds_lock.bind fun _ => ?_
  refine (holds_ending _ (neutral_stopMultipleRead spi).unlocking).bind fun _ => ?_
  refine (holds_ending _ (neutral_stopMultipleWrite spi limit).unlocking).bind fun _ => ?_
  exact holds_unlock

theorem neutral_erase (start_page end_page : Nat) :
    Neutral (erase spi limit start_page end_page) := by
  intro depth
  refine holds_lock.bind fun _ => ?_
  refine (holds_ending _ (neutral_stopMultipleWrite spi limit _).ignoring).bind fun _ => ?_
  refine (holds_ending _ (neutral_stopMultipleRead spi _).ignoring).bind fun _ => ?_
  refine (holds_set _).bind fun _ => (holds_fill 16).bind fun _ => ?_
  refine (neutral_accepted spi _).unlocking.bind fun _ => (holds_fill 16).bind fun _ => ?_
  refine (neutral_accepted spi _).unlocking.bind fun _ => (holds_fill 16).bind fun _ => ?_
  refine (holds_set _).bind fun _ => ?_
  refine Holds.bind (Holds.unlocking
    ((neutral_accepted spi _ (depth + 1)).cleaning fun _ _ held => held)) fun _ => ?_
  refine Holds.bind (Holds.unlocking
    ((neutral_waitLineFree spi limit (depth + 1)).cleaning fun _ _ held => held)) fun _ => ?_
  refine Holds.bind (holds_change ?_) fun _ => holds_unlock
  exact fun _ => ⟨rfl, rfl⟩

theorem neutral_eraseAll : Neutral (eraseAll spi limit) :=
  neutral_state.bind fun _ => neutral_erase spi limit _ _

theorem neutral_eraseSectors (sector_num nb_sectors : Nat) :
    Neutral (eraseSectors spi limit sector_num nb_sectors) :=
  neutral_state.bind fun _ => neutral_erase spi limit _ _

end SdhcSpi

end Uos
