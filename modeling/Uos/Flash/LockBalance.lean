import Uos.Flash.Locks

/-!
# When the lock of a flash driver is given back

The operations of the four drivers, and the transfers and answers of the device on which one of
them keeps the lock for ever.
-/

namespace Uos

open Command SpiFlash

namespace SpiFlash

variable {Device Own Result Other : Type}

/-- A command fails. -/
def Fails (command : Command (SpiFlash Device Own) FlashExit Result) (m : SpiFlash Device Own) :
    Prop :=
  ∃ exit, exit ≠ .hangs ∧ (command m).1 = .error exit

/-- If a command returns, the lock is held so often. -/
def Returns (depth strays : Nat) (command : Command (SpiFlash Device Own) FlashExit Result)
    (m : SpiFlash Device Own) : Prop :=
  (command m).1 ≠ .error .hangs → Held depth strays (command m).2

variable {command : Command (SpiFlash Device Own) FlashExit Result}
  {next : Result → Command (SpiFlash Device Own) FlashExit Other}
  {depth depth' after strays : Nat} {m : SpiFlash Device Own}

theorem Holds.returns (holds : Holds command depth after after) (held : Held depth strays m) :
    Returns after strays command m := by
  intro returns
  have result := holds strays m held
  generalize command m = outcome at result returns ⊢
  obtain ⟨exit | value, m'⟩ := outcome
  · exact result fun hangs => returns (congrArg _ hangs)
  · exact result

theorem Holds.goes {left : Nat} {value : Result} {m' : SpiFlash Device Own}
    (holds : Holds command depth after left) (held : Held depth strays m)
    (goes : command m = (.ok value, m')) : Held after strays m' := by
  have result := holds strays m held
  rwa [goes] at result

theorem Holds.returns_bind_iff (holds : Holds command depth' after depth)
    (held : Held depth' strays m) :
    Returns depth strays (command >>= next) m ↔
      ∀ value m', command m = (.ok value, m') → Returns depth strays (next value) m' := by
  have result := holds strays m held
  rcases outcome : command m with ⟨exit | value, m'⟩
  · rw [outcome] at result
    rw [Returns, bind_error outcome]
    constructor
    · intro _ value m'' impossible
      cases impossible
    · exact fun _ returns => result fun hangs => returns (congrArg _ hangs)
  · rw [Returns, bind_ok outcome]
    constructor
    · rintro returns value m'' same
      cases same
      exact returns
    · exact fun rest => rest value m' rfl

theorem Neutral.returns_bind_iff (neutral : Neutral command) (held : Held (depth + 1) strays m) :
    Returns depth strays (command >>= next) m ↔
      ¬ Fails command m ∧
        ∀ value m', command m = (.ok value, m') → Returns depth strays (next value) m' := by
  have result := neutral (depth + 1) strays m held
  rcases outcome : command m with ⟨exit | value, m'⟩
  · rw [outcome] at result
    rw [Returns, bind_error outcome, Fails, outcome]
    constructor
    · intro returns
      refine ⟨?_, fun _ _ impossible => by cases impossible⟩
      rintro ⟨exit', other, same⟩
      cases same
      have kept : m'.depth = depth + 1 := (result other).1
      have released : m'.depth = depth := (returns fun hangs => other (Except.error.inj hangs)).1
      omega
    · rintro ⟨goes, -⟩ returns
      exact absurd ⟨exit, fun hangs => returns (congrArg _ hangs), rfl⟩ goes
  · rw [Returns, bind_ok outcome, Fails, outcome]
    constructor
    · intro returns
      refine ⟨?_, ?_⟩
      · rintro ⟨exit, -, impossible⟩
        cases impossible
      · rintro value m'' same
        cases same
        exact returns
    · exact fun rest => rest.2 value m' rfl

theorem unlock_device (m : SpiFlash Device Own) :
    (unlock m).2.device = m.device ∧ (unlock m).2.page_size = m.page_size := by
  change (if m.depth = 0 then _ else _ : SpiFlash Device Own).device = _ ∧
    (if m.depth = 0 then _ else _ : SpiFlash Device Own).page_size = _
  split_ifs
  · exact ⟨rfl, rfl⟩
  · exact ⟨rfl, rfl⟩

theorem closing (command : Command (SpiFlash Device Own) FlashExit Unit)
    (m : SpiFlash Device Own) :
    ((unlocking command >>= fun _ => unlock) m).1 = (command m).1 ∧
      ((unlocking command >>= fun _ => unlock) m).2.device = (command m).2.device ∧
      ((unlocking command >>= fun _ => unlock) m).2.page_size = (command m).2.page_size := by
  rcases outcome : command m with ⟨exit | value, m'⟩
  · cases exit with
    | hangs =>
      rw [bind_error (by rw [SpiFlash.unlocking, cleaning, outcome])]
      exact ⟨rfl, rfl, rfl⟩
    | _ =>
      rw [bind_error (by rw [SpiFlash.unlocking, cleaning, outcome])]
      exact ⟨rfl, unlock_device m'⟩
  · rw [bind_ok (by rw [SpiFlash.unlocking, cleaning, outcome])]
    exact ⟨rfl, unlock_device m'⟩

end SpiFlash

namespace At45dbxx

variable {Device : Type}

/-- The message that asks for the status, with whatever `databuf` has behind the command. -/
def statusMessage (rest : UChar) : SpiMessage where
  tx_data := some [0xD7, rest]
  word_count := 2
  cs_hold := false

/-- What becomes of the wait for a ready device, which asks for the status at most so often: nothing
if a transfer fails or a status has wrong bits, and the device in its new state otherwise. -/
inductive Awaited (spi : Spi Device) : Nat → UChar → Device → Option Device → Prop
  | fails {limit : Nat} {rest : UChar} {device : Device}
      (lost : (spi (statusMessage rest) device).1 = false) :
      Awaited spi (limit + 1) rest device none
  | wrong {limit : Nat} {rest : UChar} {device : Device}
      (taken : (spi (statusMessage rest) device).1 = true)
      (bits : (spi (statusMessage rest) device).2.1 1 &&& 0x3C ≠ 0x1C) :
      Awaited spi (limit + 1) rest device none
  | ready {limit : Nat} {rest : UChar} {device : Device}
      (taken : (spi (statusMessage rest) device).1 = true)
      (bits : (spi (statusMessage rest) device).2.1 1 &&& 0x3C = 0x1C)
      (ends : (spi (statusMessage rest) device).2.1 1 &&& 0x80 ≠ 0) :
      Awaited spi (limit + 1) rest device (some (spi (statusMessage rest) device).2.2)
  | busy {limit : Nat} {rest : UChar} {device : Device} {result : Option Device}
      (taken : (spi (statusMessage rest) device).1 = true)
      (bits : (spi (statusMessage rest) device).2.1 1 &&& 0x3C = 0x1C)
      (works : (spi (statusMessage rest) device).2.1 1 &&& 0x80 = 0)
      (later : Awaited spi limit ((spi (statusMessage rest) device).2.1 1)
        (spi (statusMessage rest) device).2.2 result) :
      Awaited spi (limit + 1) rest device result

def eraseMessage (page_size sector_num : Nat) : SpiMessage where
  tx_data := some (0x50 :: addressBytes 3 (sectorAddress page_size sector_num))
  word_count := 4
  cs_hold := false

/-- What becomes of the erasure of a sector. -/
inductive Erased (spi : Spi Device) (limit page_size sector_num : Nat) (device : Device) :
    Option Device → Prop
  | fails (lost : (spi (eraseMessage page_size sector_num) device).1 = false) :
      Erased spi limit page_size sector_num device none
  | taken {result : Option Device}
      (taken : (spi (eraseMessage page_size sector_num) device).1 = true)
      (awaited : Awaited spi limit
        ((addressBytes 3 (sectorAddress page_size sector_num)).getD 0 0)
        (spi (eraseMessage page_size sector_num) device).2.2 result) :
      Erased spi limit page_size sector_num device result

/-- One of some sectors is not erased. -/
inductive SectorsLost (spi : Spi Device) (limit page_size : Nat) : List Nat → Device → Prop
  | here {sector_num : Nat} {rest : List Nat} {device : Device}
      (lost : Erased spi limit page_size sector_num device none) :
      SectorsLost spi limit page_size (sector_num :: rest) device
  | later {sector_num : Nat} {rest : List Nat} {device device' : Device}
      (erased : Erased spi limit page_size sector_num device (some device'))
      (lost : SectorsLost spi limit page_size rest device') :
      SectorsLost spi limit page_size (sector_num :: rest) device

section Turns

variable (spi : Spi Device)

theorem readStatus_eq (m : Driver Device) :
    ∃ m', (readStatus spi m =
        if (spi (statusMessage (m.databuf 1)) m.device).1 = true ∧
            (spi (statusMessage (m.databuf 1)) m.device).2.1 1 &&& 0x3C = 0x1C then
          (.ok ((spi (statusMessage (m.databuf 1)) m.device).2.1 1), m')
        else (.error .io, m')) ∧
      m'.databuf 1 = (spi (statusMessage (m.databuf 1)) m.device).2.1 1 ∧
      m'.device = (spi (statusMessage (m.databuf 1)) m.device).2.2 ∧
      m'.page_size = m.page_size := by
  let answer := spi (statusMessage (m.databuf 1)) m.device
  let m' : Driver Device :=
    { m with
      device := answer.2.2
      databuf := fun i => if i < 2 then answer.2.1 i else (store [0xD7] m).2.databuf i }
  have exchanged : exchange spi 2 false (store [0xD7] m).2 =
      (if answer.1 = true then .ok () else .error .io, m') := by
    have trx : spimTrx spi (statusMessage (m.databuf 1)) true (store [0xD7] m).2 =
        (if answer.1 = true then .ok ((List.range 2).map answer.2.1) else .error .io, m') := rfl
    change (spimTrx spi (statusMessage (m.databuf 1)) true >>= fun _ => pure ())
      (store [0xD7] m).2 = _
    cases taken : answer.1 with
    | false => exact bind_error (by rw [trx, taken]; rfl)
    | true => exact bind_ok (by rw [trx, taken]; rfl)
  refine ⟨m', ?_, rfl, rfl, rfl⟩
  change (exchange spi 2 false >>= fun _ => state >>= fun m =>
    if m.databuf 1 &&& 0x3C ≠ 0x1C then leave .io else pure (m.databuf 1)) (store [0xD7] m).2 = _
  change _ = if answer.1 = true ∧ answer.2.1 1 &&& 0x3C = 0x1C then _ else _
  cases taken : answer.1 with
  | false =>
    rw [if_neg (by simp)]
    exact bind_error (by rw [exchanged, taken]; rfl)
  | true =>
    rw [taken, if_pos rfl] at exchanged
    rw [bind_ok exchanged]
    change (if answer.2.1 1 &&& 0x3C ≠ 0x1C then leave .io else pure (answer.2.1 1) :
      Command (Driver Device) FlashExit UChar) m' = _
    by_cases bits : answer.2.1 1 &&& 0x3C = 0x1C
    · rw [if_neg (not_not.mpr bits), if_pos ⟨rfl, bits⟩]
      rfl
    · rw [if_pos bits, if_neg fun both => bits both.2]
      rfl

theorem waitReady_succ (limit : Nat) (m : Driver Device) :
    ∃ m', m'.databuf 1 = (spi (statusMessage (m.databuf 1)) m.device).2.1 1 ∧
      m'.device = (spi (statusMessage (m.databuf 1)) m.device).2.2 ∧
      m'.page_size = m.page_size ∧
      waitReady spi (limit + 1) m =
        if (spi (statusMessage (m.databuf 1)) m.device).1 = true ∧ m'.databuf 1 &&& 0x3C = 0x1C then
          if m'.databuf 1 &&& 0x80 ≠ 0 then (.ok (), m') else waitReady spi limit m'
        else (.error .io, m') := by
  obtain ⟨m', read, byte, device, size⟩ := readStatus_eq spi m
  refine ⟨m', byte, device, size, ?_⟩
  rw [← byte] at read
  change (readStatus spi >>= fun status => if decide (status &&& 0x80 ≠ 0) = true then pure ()
    else waitReady spi limit) m = _
  split_ifs with right ready
  · rw [if_pos right] at read
    rw [bind_ok read, if_pos (decide_eq_true ready)]
    rfl
  · rw [if_pos right] at read
    rw [bind_ok read, if_neg (by simpa using ready)]
  · rw [if_neg right] at read
    exact bind_error read

theorem waitReady_awaited (limit : Nat) (m : Driver Device) :
    match waitReady spi limit m with
    | (.ok _, m') => Awaited spi limit (m.databuf 1) m.device (some m'.device) ∧
        m'.page_size = m.page_size
    | (.error exit, _) => exit ≠ .hangs → Awaited spi limit (m.databuf 1) m.device none := by
  induction limit generalizing m with
  | zero => exact fun impossible => absurd rfl impossible
  | succ limit ih =>
    obtain ⟨m', byte, device, size, turn⟩ := waitReady_succ spi limit m
    rw [turn]
    rw [byte]
    split_ifs with right ready
    · exact ⟨device ▸ .ready right.1 right.2 ready, size⟩
    · have works := not_not.mp ready
      have later := ih m'
      rw [byte, device, size] at later
      split at later
      · exact ⟨.busy right.1 right.2 works later.1, later.2⟩
      · exact fun other => .busy right.1 right.2 works (later other)
    · intro _
      rcases taken : (spi (statusMessage (m.databuf 1)) m.device).1 with _ | _
      · exact .fails taken
      · exact .wrong taken fun bits => right ⟨taken, bits⟩

end Turns

variable {spi : Spi Device}

/-- How a command ends that leaves the device as it is told, or fails. -/
def Ends (command : Command (Driver Device) FlashExit Unit) (m : Driver Device) :
    Option Device → Prop
  | none => Fails command m
  | some device' => ∃ m', command m = (.ok (), m') ∧ m'.device = device' ∧
      m'.page_size = m.page_size

theorem Awaited.ends {limit : Nat} {rest : UChar} {device : Device} {result : Option Device}
    (awaited : Awaited spi limit rest device result) {m : Driver Device}
    (byte : m.databuf 1 = rest) (same : m.device = device) :
    Ends (waitReady spi limit) m result := by
  induction awaited generalizing m with
  | @fails limit rest device lost =>
    obtain ⟨m', -, -, -, turn⟩ := waitReady_succ spi limit m
    rw [byte, same, lost, if_neg (by simp)] at turn
    exact ⟨.io, by decide, by rw [turn]⟩
  | @wrong limit rest device taken bits =>
    obtain ⟨m', byte', -, -, turn⟩ := waitReady_succ spi limit m
    rw [byte, same] at byte' turn
    rw [byte', if_neg fun both => bits both.2] at turn
    exact ⟨.io, by decide, by rw [turn]⟩
  | @ready limit rest device taken bits ends =>
    obtain ⟨m', byte', device', size, turn⟩ := waitReady_succ spi limit m
    rw [byte, same] at byte' device' turn
    rw [byte', if_pos ⟨taken, bits⟩, if_pos ends] at turn
    exact ⟨m', turn, device', size⟩
  | @busy limit rest device result taken bits works later ih =>
    obtain ⟨m', byte', device', size, turn⟩ := waitReady_succ spi limit m
    rw [byte, same] at byte' device' turn
    rw [byte', if_pos ⟨taken, bits⟩, if_neg (not_not.mpr works)] at turn
    have ends := ih byte' device'
    cases result with
    | none =>
      obtain ⟨exit, other, fails⟩ := ends
      exact ⟨exit, other, by rw [turn, fails]⟩
    | some device'' =>
      obtain ⟨m'', goes, device'', size'⟩ := ends
      exact ⟨m'', turn.trans goes, device'', size'.trans size⟩

variable (limit sector_num : Nat) (m : Driver Device)

variable (spi) in
theorem eraseSector_eq :
    ∃ m', m'.databuf 1 = (addressBytes 3 (sectorAddress m.page_size sector_num)).getD 0 0 ∧
      m'.device = (spi (eraseMessage m.page_size sector_num) m.device).2.2 ∧
      m'.page_size = m.page_size ∧
      eraseSector spi limit sector_num m =
        if (spi (eraseMessage m.page_size sector_num) m.device).1 = true then
          (unlocking (waitReady spi limit) >>= fun _ => unlock) m'
        else (.error .io, (unlock m').2) := by
  let stored := (store (0x50 :: addressBytes 3 (sectorAddress m.page_size sector_num))
    (lock m).2).2
  let answer := spi (eraseMessage m.page_size sector_num) m.device
  let m' : Driver Device := { stored with device := answer.2.2 }
  have sent : send spi 4 false stored = (if answer.1 = true then .ok () else .error .io, m') := by
    change (spimTrx spi (eraseMessage m.page_size sector_num) false >>= fun _ => pure ()) stored = _
    have trx : spimTrx spi (eraseMessage m.page_size sector_num) false stored =
        (if answer.1 = true then .ok ((List.range 4).map answer.2.1) else .error .io, m') := rfl
    cases taken : answer.1 with
    | false => exact bind_error (by rw [trx, taken]; rfl)
    | true => exact bind_ok (by rw [trx, taken]; rfl)
  refine ⟨m', rfl, rfl, rfl, ?_⟩
  change (unlocking (send spi 4 false) >>= fun _ => unlocking (waitReady spi limit) >>= fun _ =>
    unlock) stored = _
  change _ = if answer.1 = true then _ else _
  split_ifs with taken
  · rw [if_pos taken] at sent
    exact bind_ok (by rw [SpiFlash.unlocking, cleaning, sent])
  · rw [if_neg taken] at sent
    exact bind_error (by rw [SpiFlash.unlocking, cleaning, sent])

variable (spi) in
theorem eraseSector_erased :
    match eraseSector spi limit sector_num m with
    | (.ok _, m') => Erased spi limit m.page_size sector_num m.device (some m'.device) ∧
        m'.page_size = m.page_size
    | (.error exit, _) =>
      exit ≠ .hangs → Erased spi limit m.page_size sector_num m.device none := by
  obtain ⟨m', byte, device, size, runs⟩ := eraseSector_eq spi limit sector_num m
  rw [runs]
  split_ifs with taken
  · have waits := waitReady_awaited spi limit m'
    obtain ⟨result, device', size'⟩ := closing (waitReady spi limit) m'
    rw [byte, device, size] at waits
    generalize (unlocking (waitReady spi limit) >>= fun _ => unlock) m' = whole at *
    generalize waitReady spi limit m' = outcome at waits result device' size'
    obtain ⟨end₁, m₁⟩ := whole
    obtain ⟨end₂, m₂⟩ := outcome
    obtain rfl : end₁ = end₂ := result
    cases end₁ with
    | ok value =>
      have same : m₁.device = m₂.device := device'
      exact ⟨.taken taken (same ▸ waits.1), size'.trans waits.2⟩
    | error exit => exact fun other => .taken taken (waits other)
  · exact fun _ => .fails (Bool.eq_false_iff.mpr taken)

theorem Erased.ends {limit sector_num : Nat} {m : Driver Device} {result : Option Device}
    (erased : Erased spi limit m.page_size sector_num m.device result) :
    Ends (eraseSector spi limit sector_num) m result := by
  obtain ⟨m', byte, device, size, runs⟩ := eraseSector_eq spi limit sector_num m
  cases erased with
  | fails lost =>
    rw [lost, if_neg (by simp)] at runs
    exact ⟨.io, by decide, by rw [runs]⟩
  | taken taken awaited =>
    rw [if_pos taken] at runs
    have ends := awaited.ends byte device
    obtain ⟨same, device', size'⟩ := closing (waitReady spi limit) m'
    rw [← runs] at same device' size'
    cases result with
    | none =>
      obtain ⟨exit, other, fails⟩ := ends
      exact ⟨exit, other, same.trans fails⟩
    | some device'' =>
      obtain ⟨m'', goes, device'', size''⟩ := ends
      rw [goes] at same device' size'
      exact ⟨(eraseSector spi limit sector_num m).2, Prod.ext same rfl,
        device'.trans device'', (size'.trans size'').trans size⟩

theorem each_eraseSector_fails_iff (sectors : List Nat) (m : Driver Device) :
    Fails (each sectors (eraseSector spi limit)) m ↔
      SectorsLost spi limit m.page_size sectors m.device := by
  induction sectors generalizing m with
  | nil =>
    constructor
    · rintro ⟨exit, -, impossible⟩
      cases impossible
    · intro impossible
      cases impossible
  | cons sector_num rest ih =>
    have first := eraseSector_erased spi limit sector_num m
    change Fails (eraseSector spi limit sector_num >>= fun _ =>
      each rest (eraseSector spi limit)) m ↔ _
    rcases outcome : eraseSector spi limit sector_num m with ⟨exit | value, m'⟩
    · rw [outcome] at first
      rw [Fails, bind_error outcome]
      constructor
      · rintro ⟨exit', other, same⟩
        cases same
        exact .here (first other)
      · rintro (⟨lost⟩ | ⟨erased, lost⟩)
        · obtain ⟨exit', other, fails⟩ := lost.ends
          rw [outcome] at fails
          exact ⟨exit', other, fails⟩
        · obtain ⟨m'', goes, -⟩ := erased.ends
          rw [outcome] at goes
          cases goes
    · rw [outcome] at first
      rw [Fails, bind_ok outcome, ← Fails, ih, first.2]
      constructor
      · exact fun lost => .later first.1 lost
      · rintro (⟨lost⟩ | ⟨erased, lost⟩)
        · obtain ⟨exit, -, fails⟩ := lost.ends
          rw [outcome] at fails
          cases fails
        · obtain ⟨m'', goes, device, -⟩ := erased.ends
          rw [outcome] at goes
          cases goes
          rwa [device]

theorem eraseSectors_givesBack_iff (nb_sectors : Nat) (m : Driver Device) :
    GivesBack (eraseSectors spi limit sector_num nb_sectors) m ↔
      ¬ SectorsLost spi limit m.page_size
        ((List.range nb_sectors).map fun i => (sector_num + i) % 2 ^ 32) m.device := by
  have each_neutral : Neutral (each ((List.range nb_sectors).map fun i =>
      (sector_num + i) % 2 ^ 32) (eraseSector spi limit)) :=
    neutral_each (fun sector_num => neutral_eraseSector spi limit sector_num) _
  have held : Held (m.depth + 1) m.strays (lock m).2 := ⟨rfl, rfl⟩
  change Returns m.depth m.strays ((each (List.range nb_sectors) fun i =>
    eraseSector spi limit ((sector_num + i) % 2 ^ 32)) >>= fun _ => unlock) (lock m).2 ↔ _
  rw [each_map _ (fun i => (sector_num + i) % 2 ^ 32) (eraseSector spi limit),
    each_neutral.returns_bind_iff held, each_eraseSector_fails_iff]
  constructor
  · exact fun both => both.1
  · intro erased
    refine ⟨erased, fun value m' runs => Holds.returns holds_unlock ?_⟩
    have kept := each_neutral (m.depth + 1) m.strays _ held
    rwa [runs] at kept

end At45dbxx

namespace SdhcSpi

variable {Device : Type}

def wordMessage (own : SdhcOwn) : SpiMessage where
  tx_data := some [own.tx_data.getD (fun _ => 0xFF) 0]
  word_count := 1
  cs_hold := own.cs_hold
  cs_high := own.cs_high
  freq := own.freq

/-- While a data token is awaited, which takes at most so many words, a transfer fails; where the
words do not come into `databuf`, none of them is a token. -/
inductive TokenLost (spi : Spi Device) (message : SpiMessage) (rx_data : Bool) :
    Nat → Device → Prop
  | fails {limit : Nat} {device : Device} (lost : (spi message device).1 = false) :
      TokenLost spi message rx_data (limit + 1) device
  | later {limit : Nat} {device : Device} (taken : (spi message device).1 = true)
      (other : rx_data = true → (spi message device).2.1 0 ≠ 0xFE)
      (lost : TokenLost spi message rx_data limit (spi message device).2.2) :
      TokenLost spi message rx_data (limit + 1) device

/-- The data token is not among the words read with the answer, and is lost then. -/
def WaitLost (spi : Spi Device) (limit start : Nat) (m : Driver Device) : Prop :=
  tokenIn m.databuf start m.own.word_count = none ∧
    TokenLost spi (wordMessage m.own) m.own.rx_data limit m.device

/-- One of the two data tokens that `sd_connect` awaits is lost. -/
inductive TokenMissed (spi : Spi Device) (around : Surroundings) (limit : Nat) (m : Driver Device) :
    Prop
  | csd {r1 : Nat} {m₁ : Driver Device} (reached : connectToCsd spi limit m = (.ok r1, m₁))
      (lost : WaitLost spi limit r1 m₁)
  | switch {r1 r1' : Nat} {start : Option Nat} {m₁ m₂ m₃ : Driver Device}
      (reached : connectToCsd spi limit m = (.ok r1, m₁))
      (came : waitDataToken spi limit (some r1) m₁ = (.ok start, m₂))
      (reached' : connectToSwitch spi around start m₂ = (.ok r1', m₃))
      (lost : WaitLost spi limit r1' m₃)

variable (spi : Spi Device)

theorem readWord_eq (m : Driver Device) (one : m.own.word_count = 1) :
    ∃ m', m'.own = m.own ∧ m'.device = (spi (wordMessage m.own) m.device).2.2 ∧
      readWord spi m =
        if (spi (wordMessage m.own) m.device).1 = true then
          (.ok (if m.own.rx_data = true then (spi (wordMessage m.own) m.device).2.1 0 else 0xFF),
            m')
        else (.error .io, m') := by
  let answer := spi (wordMessage m.own) m.device
  let stored := (store [0xFF] m).2
  let m' : Driver Device :=
    { m with
      device := answer.2.2
      databuf := if m.own.rx_data = true then
          fun i => if i < 1 then answer.2.1 i else stored.databuf i
        else stored.databuf }
  have message : SpiMessage.mk
      (some ((List.range m.own.word_count).map (m.own.tx_data.getD stored.databuf)))
      m.own.word_count m.own.cs_hold m.own.cs_high m.own.freq = wordMessage m.own := by
    rw [one, wordMessage]
    cases m.own.tx_data <;> rfl
  have trx_eq : trx spi stored =
      (if answer.1 = true then .ok ((List.range 1).map answer.2.1) else .error .io, m') := by
    change spimTrx spi (SpiMessage.mk
      (some ((List.range m.own.word_count).map (m.own.tx_data.getD stored.databuf)))
      m.own.word_count m.own.cs_hold m.own.cs_high m.own.freq) m.own.rx_data stored = _
    rw [message]
    rfl
  refine ⟨m', rfl, rfl, ?_⟩
  change (trx spi >>= fun _ => state >>= fun m => pure (m.databuf 0)) stored = _
  change _ = if answer.1 = true then _ else _
  by_cases taken : answer.1 = true
  · have word : m'.databuf 0 = if m.own.rx_data = true then answer.2.1 0 else 0xFF := by
      change (if m.own.rx_data = true then _ else _ : Nat → UChar) 0 = _
      split_ifs <;> rfl
    rw [if_pos taken] at trx_eq
    rw [bind_ok trx_eq, if_pos taken, ← word]
    rfl
  · rw [if_neg taken] at trx_eq
    rw [if_neg taken]
    exact bind_error trx_eq

theorem poll_fails_iff (limit : Nat) (m : Driver Device) (one : m.own.word_count = 1) :
    Fails (poll (readWord spi) (· = 0xFE) limit) m ↔
      TokenLost spi (wordMessage m.own) m.own.rx_data limit m.device := by
  induction limit generalizing m with
  | zero =>
    constructor
    · rintro ⟨exit, other, same⟩
      cases same
      exact absurd rfl other
    · intro impossible
      cases impossible
  | succ limit ih =>
    obtain ⟨m', own, device, read⟩ := readWord_eq spi m one
    change Fails (readWord spi >>= fun word => if decide (word = 0xFE) = true then pure ()
      else poll (readWord spi) (· = 0xFE) limit) m ↔ _
    by_cases taken : (spi (wordMessage m.own) m.device).1 = true
    · rw [if_pos taken] at read
      rw [Fails, bind_ok read]
      generalize seen : (if m.own.rx_data = true then _ else _ : UChar) = word
      by_cases token : word = 0xFE
      · rw [if_pos (decide_eq_true token)]
        constructor
        · rintro ⟨exit, -, impossible⟩
          cases impossible
        · rintro (lost | ⟨-, other, -⟩)
          · rw [lost] at taken
            cases taken
          · by_cases rx : m.own.rx_data = true
            · rw [if_pos rx] at seen
              exact absurd (seen.trans token) (other rx)
            · rw [if_neg rx, token] at seen
              cases seen
      · rw [if_neg (by simpa using token), ← Fails, ih m' (own ▸ one), own, device]
        constructor
        · refine fun lost => .later taken (fun rx same => token ?_) lost
          rw [← seen, if_pos rx, same]
        · rintro (lost | ⟨-, -, lost⟩)
          · rw [lost] at taken
            cases taken
          · exact lost
    · rw [if_neg taken] at read
      rw [Fails, bind_error read]
      exact iff_of_true ⟨.io, by decide, rfl⟩ (.fails (Bool.eq_false_iff.mpr taken))

theorem waitDataToken_eq (limit start : Nat) (m : Driver Device) :
    Fails (waitDataToken spi limit (some start)) m =
      Fails (match tokenIn m.databuf start m.own.word_count with
        | some i => pure (some i)
        | none => set (fun own => { own with word_count := 1 }) >>= fun _ =>
          poll (readWord spi) (· = 0xFE) limit >>= fun _ => pure none) m :=
  rfl

theorem waitDataToken_fails_iff (limit start : Nat) (m : Driver Device) :
    Fails (waitDataToken spi limit (some start)) m ↔ WaitLost spi limit start m := by
  rw [waitDataToken_eq, WaitLost]
  cases tokenIn m.databuf start m.own.word_count with
  | some i =>
    constructor
    · rintro ⟨exit, -, impossible⟩
      cases impossible
    · rintro ⟨impossible, -⟩
      cases impossible
  | none =>
    let single : Driver Device := { m with own := { m.own with word_count := 1 } }
    have polls : Fails (poll (readWord spi) (· = 0xFE) limit) single ↔
        TokenLost spi (wordMessage m.own) m.own.rx_data limit m.device :=
      poll_fails_iff spi limit single rfl
    rw [← polls, and_iff_right rfl]
    change Fails (poll (readWord spi) (· = 0xFE) limit >>= fun _ => pure none) single ↔ _
    rcases outcome : poll (readWord spi) (· = 0xFE) limit single with ⟨exit | value, m'⟩
    · simp only [Fails, bind_error outcome, outcome, Except.error.injEq]
    · rw [Fails, Fails, bind_ok outcome, outcome]
      refine iff_of_false ?_ ?_
      · rintro ⟨exit, -, impossible⟩
        cases impossible
      · rintro ⟨exit, -, impossible⟩
        cases impossible

theorem holds_connectToCsd (limit depth : Nat) :
    Holds (connectToCsd spi limit) depth (depth + 1) depth := by
  refine holds_lock.bind fun _ => (holds_fill 40).bind fun _ => (holds_set _).bind fun _ => ?_
  refine (neutral_trx spi).unlocking.bind fun _ => (holds_set _).bind fun _ => ?_
  refine (neutral_command spi _).unlocking.bind fun r1 => ?_
  refine (neutral_demand _ _).unlocking.bind fun _ => (holds_set _).bind fun _ => ?_
  refine (neutral_command spi _).unlocking.bind fun r1 => ?_
  refine (neutral_demand _ _).unlocking.bind fun _ => ?_
  refine (neutral_demand _ _).unlocking.bind fun _ => (holds_fill 20).bind fun _ => ?_
  refine (holds_set _).bind fun _ => (neutral_initializeCard spi limit).unlocking.bind fun _ => ?_
  refine (holds_set _).bind fun _ => (neutral_command spi _).unlocking.bind fun r1 => ?_
  refine (neutral_demand _ _).unlocking.bind fun _ => ?_
  refine (neutral_demand _ _).unlocking.bind fun _ => (holds_set _).bind fun _ => ?_
  refine (holds_fill 40).bind fun _ => (neutral_command spi _).unlocking.bind fun r1 => ?_
  exact (neutral_demand _ _).unlocking.bind fun _ => holds_pure

variable (around : Surroundings)

theorem holds_connectToSwitch (start : Option Nat) (depth : Nat) :
    Holds (connectToSwitch spi around start) (depth + 1) (depth + 1) depth := by
  refine Holds.bind (holds_change ?_) fun _ => ?_
  · exact fun _ => ⟨rfl, rfl⟩
  · refine (holds_fill 16).bind fun _ => (holds_set _).bind fun _ => ?_
    refine (neutral_command spi _).unlocking.bind fun r1 => ?_
    exact (neutral_demand _ _).unlocking.bind fun _ => holds_pure

theorem holds_connectToEnd (start : Option Nat) (depth : Nat) :
    Holds (connectToEnd spi around start) (depth + 1) depth depth := by
  refine holds_state.bind fun m => (holds_set _).bind fun _ => (holds_fill 40).bind fun _ => ?_
  refine (neutral_trx spi).unlocking.bind fun _ => holds_state.bind fun m => ?_
  refine (holds_fill 40).bind fun _ => (neutral_trx spi).unlocking.bind fun _ => ?_
  exact (holds_set _).bind fun _ => holds_unlock

theorem connect_givesBack_iff (limit : Nat) (m : Driver Device) :
    GivesBack (connect spi around limit) m ↔ ¬ TokenMissed spi around limit m := by
  change Returns m.depth m.strays (connectToCsd spi limit >>= _) m ↔ _
  have waits : ∀ start, Neutral (waitDataToken spi limit start) := neutral_waitDataToken spi limit
  have start_held : Held m.depth m.strays m := ⟨rfl, rfl⟩
  have csd := holds_connectToCsd spi limit m.depth
  have switch := fun start => holds_connectToSwitch spi around start m.depth
  rw [csd.returns_bind_iff start_held]
  constructor
  · intro returns missed
    cases missed with
    | @csd r1 m₁ reached lost =>
      have rest := returns r1 m₁ reached
      rw [(waits _).returns_bind_iff (csd.goes start_held reached),
        waitDataToken_fails_iff] at rest
      exact rest.1 lost
    | @switch r1 r1' start m₁ m₂ m₃ reached came reached' lost =>
      have held₁ := csd.goes start_held reached
      have held₂ := (waits _ _).goes held₁ came
      have held₃ := (switch start).goes held₂ reached'
      have rest := returns r1 m₁ reached
      rw [(waits _).returns_bind_iff held₁] at rest
      have rest := rest.2 start m₂ came
      rw [(switch start).returns_bind_iff held₂] at rest
      have rest := rest r1' m₃ reached'
      rw [(waits _).returns_bind_iff held₃, waitDataToken_fails_iff] at rest
      exact rest.1 lost
  · intro comes r1 m₁ reached
    have held₁ := csd.goes start_held reached
    rw [(waits _).returns_bind_iff held₁, waitDataToken_fails_iff]
    refine ⟨fun lost => comes (.csd reached lost), fun start m₂ came => ?_⟩
    have held₂ := (waits _ _).goes held₁ came
    rw [(switch start).returns_bind_iff held₂]
    intro r1' m₃ reached'
    have held₃ := (switch start).goes held₂ reached'
    rw [(waits _).returns_bind_iff held₃, waitDataToken_fails_iff]
    refine ⟨fun lost => comes (.switch reached came reached' lost), fun start' m₄ came' => ?_⟩
    exact (holds_connectToEnd spi around start' m.depth).returns ((waits _ _).goes held₃ came')

end SdhcSpi

/-- The drivers of flash memories on an SPI. -/
inductive FlashDriver
  | at45dbxx
  | m25pxx
  | s25fl
  | sdhcSpi

/-- The calls of a `flashif_t`. -/
inductive FlashCall
  | connect
  | eraseAll
  | eraseSectors (sector_num nb_sectors : Nat)
  | write (page_num : Nat) (data : List UChar)
  | read (page_num size : Nat)
  | flush

namespace FlashDriver

variable {Device : Type}

/-- The fields of a driver besides its `flashif_t`. -/
abbrev Own : FlashDriver → Type
  | sdhcSpi => SdhcOwn
  | _ => Unit

def plain {Own : Type} (command : Command (SpiFlash Device Own) FlashExit Unit) :
    Command (SpiFlash Device Own) FlashExit (List UChar) := do
  command
  pure []

/-- What a call does: `shifted` is what the machine makes of `1 << size`, `around` what it has where
pointers go astray, and a run is given up where a loop takes more than `limit` turns. -/
def execute (spi : Spi Device) (shifted : UChar → Nat) (around : Surroundings) (limit : Nat) :
    (driver : FlashDriver) → FlashCall →
      Command (SpiFlash Device driver.Own) FlashExit (List UChar)
  | at45dbxx, .connect => plain (At45dbxx.connect spi)
  | at45dbxx, .eraseAll => plain (At45dbxx.eraseAll spi limit)
  | at45dbxx, .eraseSectors sector_num nb_sectors =>
    plain (At45dbxx.eraseSectors spi limit sector_num nb_sectors)
  | at45dbxx, .write page_num data => plain (At45dbxx.write spi limit page_num data)
  | at45dbxx, .read page_num size => At45dbxx.read spi limit page_num size
  | at45dbxx, .flush => leave .notSupp
  | m25pxx, .connect => plain (M25pxx.connect spi shifted)
  | m25pxx, .eraseAll => plain (M25pxx.eraseAll spi limit)
  | m25pxx, .eraseSectors sector_num nb_sectors =>
    plain (M25pxx.eraseSectors spi limit sector_num nb_sectors)
  | m25pxx, .write page_num data => plain (M25pxx.write spi limit page_num data)
  | m25pxx, .read page_num size => M25pxx.read spi limit page_num size
  | m25pxx, .flush => leave .notSupp
  | s25fl, .connect => plain (S25fl.connect spi)
  | s25fl, .eraseAll => plain (S25fl.eraseAll spi limit)
  | s25fl, .eraseSectors sector_num nb_sectors =>
    plain (S25fl.eraseSectors spi limit sector_num nb_sectors)
  | s25fl, .write page_num data => plain (S25fl.write spi limit page_num data)
  | s25fl, .read page_num size => S25fl.read spi limit page_num size
  | s25fl, .flush => leave .notSupp
  | sdhcSpi, .connect => plain (SdhcSpi.connect spi around limit)
  | sdhcSpi, .eraseAll => plain (SdhcSpi.eraseAll spi limit)
  | sdhcSpi, .eraseSectors sector_num nb_sectors =>
    plain (SdhcSpi.eraseSectors spi limit sector_num nb_sectors)
  | sdhcSpi, .write page_num data => plain (SdhcSpi.write spi limit page_num data)
  | sdhcSpi, .read page_num size => SdhcSpi.read spi limit page_num size
  | sdhcSpi, .flush => plain (SdhcSpi.flush spi limit)

/-- The device answers a call so that the driver keeps the lock. -/
def Keeps (spi : Spi Device) (around : Surroundings) (limit : Nat) :
    (driver : FlashDriver) → FlashCall → SpiFlash Device driver.Own → Prop
  | at45dbxx, .eraseSectors sector_num nb_sectors, m =>
    At45dbxx.SectorsLost spi limit m.page_size
      ((List.range nb_sectors).map fun i => (sector_num + i) % 2 ^ 32) m.device
  | sdhcSpi, .connect, m => SdhcSpi.TokenMissed spi around limit m
  | _, _, _ => False

theorem plain_givesBack_iff {Own : Type} (command : Command (SpiFlash Device Own) FlashExit Unit)
    (m : SpiFlash Device Own) : GivesBack (plain command) m ↔ GivesBack command m := by
  have same : (plain command m).2 = (command m).2 ∧
      ((plain command m).1 = .error .hangs ↔ (command m).1 = .error .hangs) := by
    rcases outcome : command m with ⟨exit | value, m'⟩
    · rw [plain, bind_error outcome]
      exact ⟨rfl, by simp only [Except.error.injEq]⟩
    · rw [plain, bind_ok outcome]
      exact ⟨rfl, iff_of_false (fun impossible => by cases impossible)
        fun impossible => by cases impossible⟩
  rw [GivesBack, GivesBack, same.1]
  exact imp_congr_left (not_congr same.2)

/-- A call gives the lock back unless a sector of an AT45DBxx is not erased, or a data token of a
card is lost while it is connected. -/
theorem execute_givesBack_iff (spi : Spi Device) (shifted : UChar → Nat) (around : Surroundings)
    (limit : Nat) (driver : FlashDriver) (call : FlashCall) (m : SpiFlash Device driver.Own) :
    GivesBack (driver.execute spi shifted around limit call) m ↔
      ¬ driver.Keeps spi around limit call m := by
  have neutral {Own : Type} {command : Command (SpiFlash Device Own) FlashExit Unit}
      (holds : Neutral command) (m : SpiFlash Device Own) :
      GivesBack (plain command) m ↔ ¬ False :=
    iff_of_true ((plain_givesBack_iff command m).mpr (holds.givesBack m)) not_false
  have reads {Own : Type} {command : Command (SpiFlash Device Own) FlashExit (List UChar)}
      (holds : Neutral command) (m : SpiFlash Device Own) : GivesBack command m ↔ ¬ False :=
    iff_of_true (holds.givesBack m) not_false
  cases driver with
  | at45dbxx =>
    cases call with
    | connect => exact neutral (At45dbxx.neutral_connect spi) m
    | eraseAll => exact neutral (At45dbxx.neutral_eraseAll spi limit) m
    | eraseSectors sector_num nb_sectors =>
      exact (plain_givesBack_iff _ m).trans
        (At45dbxx.eraseSectors_givesBack_iff limit sector_num nb_sectors m)
    | write page_num data => exact neutral (At45dbxx.neutral_write spi limit page_num data) m
    | read page_num size => exact reads (At45dbxx.neutral_read spi limit page_num size) m
    | flush => exact reads neutral_leave m
  | m25pxx =>
    cases call with
    | connect => exact neutral (M25pxx.neutral_connect spi shifted) m
    | eraseAll => exact neutral (NorFlash.neutral_eraseAllBy spi limit 0xC7) m
    | eraseSectors sector_num nb_sectors =>
      exact neutral (NorFlash.neutral_eraseSectorsBy spi limit 3 sector_num nb_sectors) m
    | write page_num data =>
      exact neutral (NorFlash.neutral_writeBy spi limit 3 page_num data) m
    | read page_num size => exact reads (NorFlash.neutral_readBy spi limit 3 page_num size) m
    | flush => exact reads neutral_leave m
  | s25fl =>
    cases call with
    | connect => exact neutral (S25fl.neutral_connect spi) m
    | eraseAll => exact neutral (NorFlash.neutral_eraseAllBy spi limit 0x60) m
    | eraseSectors sector_num nb_sectors =>
      exact neutral (NorFlash.neutral_eraseSectorsBy spi limit 4 sector_num nb_sectors) m
    | write page_num data =>
      exact neutral (NorFlash.neutral_writeBy spi limit 4 page_num data) m
    | read page_num size => exact reads (NorFlash.neutral_readBy spi limit 4 page_num size) m
    | flush => exact reads neutral_leave m
  | sdhcSpi =>
    cases call with
    | connect =>
      exact (plain_givesBack_iff _ m).trans (SdhcSpi.connect_givesBack_iff spi around limit m)
    | eraseAll => exact neutral (SdhcSpi.neutral_eraseAll spi limit) m
    | eraseSectors sector_num nb_sectors =>
      exact neutral (SdhcSpi.neutral_eraseSectors spi limit sector_num nb_sectors) m
    | write page_num data => exact neutral (SdhcSpi.neutral_write spi limit page_num data) m
    | read page_num size => exact reads (SdhcSpi.neutral_read spi limit page_num size) m
    | flush => exact neutral (SdhcSpi.neutral_flush spi limit) m

/-- After one transfer that fails, an AT45DBxx is locked for ever. -/
theorem eraseSectors_keeps :
    ¬ GivesBack (at45dbxx.execute (fun _ device => (false, fun _ => 0, device)) (fun _ => 0)
      ⟨fun _ => 0, fun _ => 0⟩ 1 (.eraseSectors 0 1)) { own := (), device := () } := by
  intro gives
  exact absurd (gives (by decide)).1 (by decide)

end FlashDriver
end Uos
