import Mathlib.Tactic.IntervalCases
import Uos.Input.Keyboard

/-!
# The codes of keys

A PS/2 keyboard sends a code of one to three bytes when a key goes down and when it goes up.  The
history of the codes says which keys are held, which locks are on, and which events there are.
-/

namespace Uos

/-- The keys by their scan codes.  `E0` and `E1` are no scan codes, but prefixes. -/
inductive Key where
  | base (scan : BitVec 7) (noPrefix : scan ≠ 0x60 ∧ scan ≠ 0x61)
  | extended (scan : BitVec 7)
  | pause
  deriving DecidableEq

/-- A key goes down, or up. -/
structure KeyCode where
  key : Key
  release : Bool
  deriving DecidableEq

def KeyCode.bytes : KeyCode → List (BitVec 8)
  | ⟨.base scan _, release⟩ => [BitVec.cons release scan]
  | ⟨.extended scan, release⟩ => [0xE0, BitVec.cons release scan]
  | ⟨.pause, false⟩ => [0xE1, 0x1D, 0x45]
  | ⟨.pause, true⟩ => [0xE1, 0x9D, 0xC5]

namespace Key

def leftShift : Key := .base 0x2A (by decide)
def rightShift : Key := .base 0x36 (by decide)
def leftCtrl : Key := .base 0x1D (by decide)
def rightCtrl : Key := .extended 0x1D
def leftAlt : Key := .base 0x38 (by decide)
def rightAlt : Key := .extended 0x38
def leftMeta : Key := .extended 0x5B
def rightMeta : Key := .extended 0x5C
def numLock : Key := .base 0x45 (by decide)
def capsLock : Key := .base 0x3A (by decide)

def ofBit : Nat → Option Key
  | 0 => some leftShift
  | 1 => some rightShift
  | 6 => some leftCtrl
  | 7 => some rightCtrl
  | 8 => some leftAlt
  | 9 => some rightAlt
  | 10 => some leftMeta
  | 11 => some rightMeta
  | 12 => some numLock
  | 13 => some capsLock
  | _ => none

/-- Is the key one that locks? -/
def IsLock (key : Key) : Prop :=
  key = numLock ∨ key = capsLock

instance : DecidablePred IsLock := fun _ => inferInstanceAs (Decidable (_ ∨ _))

/-- Does the key have a bit of the modifiers? -/
def IsModifier (key : Key) : Prop :=
  ∃ i < 14, ofBit i = some key

instance : DecidablePred IsModifier := fun _ => inferInstanceAs (Decidable (∃ i < 14, _))

def symbol : Key → BitVec 16
  | .base scan _ => KeyboardState.keyAt (BitVec.cons false scan)
  | .extended scan => KeyboardState.keyAt (BitVec.cons true scan)
  | .pause => KeyboardState.keyPause

end Key

/-- Is a key down after the codes of a history?  The last code comes first. -/
def isHeld : List KeyCode → Key → Bool
  | [], _ => false
  | code :: history, key => if code.key = key then !code.release else isHeld history key

/-- Is a lock on after the codes of a history?  A key that repeats does not change it. -/
def isOn : List KeyCode → Key → Bool
  | [], _ => false
  | code :: history, key =>
    if code.key = key ∧ code.release = false ∧ isHeld history key = false then !isOn history key
    else isOn history key

/-- A bit of the modifiers: the key is held, or the lock is on. -/
def modifierBit (history : List KeyCode) (i : Nat) : Bool :=
  match Key.ofBit i with
  | none => false
  | some key => if key.IsLock then isOn history key else isHeld history key

def modifiersOf (history : List KeyCode) : BitVec 32 :=
  (BitVec.ofBoolListLE ((List.range 32).map (modifierBit history))).setWidth 32

/-- Does a code change whether a modifier or a lock is held? -/
def Changes (history : List KeyCode) (code : KeyCode) : Prop :=
  code.key.IsModifier ∧ isHeld history code.key = code.release

instance (history : List KeyCode) (code : KeyCode) : Decidable (Changes history code) :=
  inferInstanceAs (Decidable (_ ∧ _))

/-- Is a code an event?  A key without a symbol is none, nor is a modifier that repeats or a lock
that goes up. -/
def IsEvent (history : List KeyCode) (code : KeyCode) : Prop :=
  code.key.symbol ≠ 0 ∧ (code.key.IsModifier → Changes history code) ∧
    (code.key.IsLock → code.release = false)

instance (history : List KeyCode) (code : KeyCode) : Decidable (IsEvent history code) :=
  inferInstanceAs (Decidable (_ ∧ _ ∧ _))

def eventOf (history : List KeyCode) (code : KeyCode) : Option KeyboardEvent :=
  if IsEvent history code then
    some
      { key := code.key.symbol
        modifiers := (modifiersOf (code :: history)).setWidth 16
        release := if code.release then 1 else 0 }
  else none

/-! ## The bits of the modifiers -/

namespace Key

variable {i : Nat} {key : Key}

theorem lt_of_ofBit (place : ofBit i = some key) : i < 14 := by
  by_contra beyond
  have nowhere : ofBit i = none := by
    rw [ofBit] <;> omega
  exact Option.some_ne_none key (place.symm.trans nowhere)

theorem isModifier_of_ofBit (place : ofBit i = some key) : key.IsModifier :=
  ⟨i, lt_of_ofBit place, place⟩

theorem isModifier_of_isLock (lock : key.IsLock) : key.IsModifier := by
  rcases lock with rfl | rfl <;> decide

theorem ofBit_injective {j : Nat} (first : ofBit i = some key) (second : ofBit j = some key) :
    i = j := by
  have places : ∀ i < 14, ∀ j < 14, ofBit i = ofBit j → ofBit i ≠ none → i = j := by decide
  exact places i (lt_of_ofBit first) j (lt_of_ofBit second) (first.trans second.symm)
    (first ▸ Option.some_ne_none key)

end Key

theorem getLsbD_modifiersOf (history : List KeyCode) (i : Nat) :
    (modifiersOf history).getLsbD i = modifierBit history i := by
  rw [modifiersOf, BitVec.getLsbD_setWidth, BitVec.getLsbD_ofBoolListLE]
  rcases Nat.lt_or_ge i 32 with bound | beyond
  · simp [bound]
  · cases place : Key.ofBit i with
    | none => simp [modifierBit, place, beyond.not_gt]
    | some key => exact absurd (Key.lt_of_ofBit place) (by omega)

theorem modifierBit_cons_of_ne {code : KeyCode} {i : Nat} (other : Key.ofBit i ≠ some code.key)
    (history : List KeyCode) : modifierBit (code :: history) i = modifierBit history i := by
  rw [modifierBit, modifierBit]
  cases place : Key.ofBit i with
  | none => rfl
  | some key =>
    have ne : code.key ≠ key := fun same => other (place.trans (congrArg some same.symm))
    simp only [isOn, isHeld, ne, false_and, if_false]

theorem modifiersOf_cons {history : List KeyCode} {code : KeyCode} (same : ¬Changes history code) :
    modifiersOf (code :: history) = modifiersOf history := by
  apply BitVec.eq_of_getLsbD_eq
  intro i _
  rw [getLsbD_modifiersOf, getLsbD_modifiersOf]
  by_cases place : Key.ofBit i = some code.key
  · have held : isHeld history code.key = !code.release :=
      Bool.eq_not_of_ne fun equal => same ⟨Key.isModifier_of_ofBit place, equal⟩
    simp only [modifierBit, place, isOn, isHeld, if_true, true_and, held]
    cases code.release <;> simp
  · exact modifierBit_cons_of_ne place history

theorem modifiersOf_cons_of_ofBit {history : List KeyCode} {code : KeyCode} {i : Nat}
    (place : Key.ofBit i = some code.key) :
    modifiersOf (code :: history) =
      if modifierBit (code :: history) i then modifiersOf history ||| BitVec.twoPow 32 i
      else modifiersOf history &&& ~~~BitVec.twoPow 32 i := by
  apply BitVec.eq_of_getLsbD_eq
  intro j bound
  have inside : i < 32 := Nat.lt_trans (Key.lt_of_ofBit place) (by decide)
  by_cases same : i = j
  · subst same
    rw [getLsbD_modifiersOf]
    cases modifierBit (code :: history) i <;> simp [inside]
  · have other : Key.ofBit j ≠ some code.key := fun again =>
      same (Key.ofBit_injective place again)
    rw [getLsbD_modifiersOf, modifierBit_cons_of_ne other]
    split_ifs <;> simp only [BitVec.getLsbD_or, BitVec.getLsbD_and, BitVec.getLsbD_not,
      BitVec.getLsbD_twoPow, getLsbD_modifiersOf, same, bound, decide_true, decide_false,
      Bool.and_false, Bool.or_false, Bool.not_false, Bool.and_true]

/-! ## The decoder follows the codes -/

/-- The decoder knows what a history says of the keys. -/
structure KeyboardState.Follows (u : KeyboardState) (history : List KeyCode) : Prop where
  state : u.state = .base
  modifiers : u.modifiers = modifiersOf history
  capslock : u.capslock = isHeld history .capsLock
  numlock : u.numlock = isHeld history .numLock

/-- A switch takes a code: it goes on to an event unless a modifier repeats or a lock goes up. -/
structure KeyboardState.Takes (history : List KeyCode) (code : KeyCode)
    (switched : KeyboardState × Bool) : Prop where
  follows : switched.1.Follows (code :: history)
  goes : switched.2 = true ↔
    (code.key.IsModifier → Changes history code) ∧ (code.key.IsLock → code.release = false)

namespace KeyboardState

variable {u : KeyboardState} {history : List KeyCode} {code : KeyCode} {i : Nat} {key : Key}

theorem Follows.stays (follows : u.Follows history) (same : ¬Changes history code) :
    u.Follows (code :: history) := by
  have held (key : Key) (modifier : key.IsModifier) :
      isHeld (code :: history) key = isHeld history key := by
    rw [isHeld]
    split_ifs with here
    · subst here
      exact (Bool.eq_not_of_ne fun equal => same ⟨modifier, equal⟩).symm
    · rfl
  exact ⟨follows.state, follows.modifiers.trans (modifiersOf_cons same).symm,
    follows.capslock.trans (held _ (by decide)).symm,
    follows.numlock.trans (held _ (by decide)).symm⟩

theorem Follows.repeats (follows : u.Follows history) (modifier : code.key.IsModifier)
    (same : ¬Changes history code) : Takes history code (u, false) :=
  ⟨follows.stays same, iff_of_false Bool.false_ne_true fun taken => same (taken.1 modifier)⟩

theorem Follows.other (follows : u.Follows history) (other : ¬code.key.IsModifier)
    (plain : ¬code.key.IsLock) : Takes history code (u, true) :=
  ⟨follows.stays fun changes => other changes.1,
    iff_of_true rfl ⟨fun modifier => absurd modifier other, fun lock => absurd lock plain⟩⟩

theorem mask_eq_zero_iff (modifiers : u.modifiers = modifiersOf history)
    (place : Key.ofBit i = some key) :
    u.modifiers &&& BitVec.twoPow 32 i = 0 ↔ modifierBit history i = false := by
  have inside : i < 32 := Nat.lt_trans (Key.lt_of_ofBit place) (by decide)
  have nonzero : BitVec.twoPow 32 i ≠ 0#32 := fun zero => by
    simpa [inside] using congrArg (fun x => x.getLsbD i) zero
  rw [modifiers, BitVec.and_twoPow, ← getLsbD_modifiersOf]
  cases (modifiersOf history).getLsbD i
  · exact iff_of_true rfl rfl
  · exact iff_of_false nonzero Bool.noConfusion

theorem modifierBit_plain (place : Key.ofBit i = some key) (plain : ¬key.IsLock) :
    modifierBit history i = isHeld history key := by
  simp only [modifierBit, place, if_neg plain]

theorem Follows.modifier {u' : KeyboardState} (follows : u.Follows history)
    (place : Key.ofBit i = some code.key) (plain : ¬code.key.IsLock)
    (changes : Changes history code) (state : u'.state = u.state)
    (modifiers : u'.modifiers = if code.release then u.modifiers &&& ~~~BitVec.twoPow 32 i
      else u.modifiers ||| BitVec.twoPow 32 i)
    (capslock : u'.capslock = u.capslock) (numlock : u'.numlock = u.numlock) :
    Takes history code (u', true) := by
  have bit : modifierBit (code :: history) i = !code.release := by
    simp only [modifierBit_plain place plain, isHeld, if_true]
  refine ⟨⟨state.trans follows.state, ?_, ?_, ?_⟩,
    iff_of_true rfl ⟨fun _ => changes, fun lock => absurd lock plain⟩⟩
  · rw [modifiersOf_cons_of_ofBit place, bit, modifiers, follows.modifiers]
    cases code.release <;> rfl
  · rw [isHeld, if_neg fun same => plain (.inr same)]
    exact capslock.trans follows.capslock
  · rw [isHeld, if_neg fun same => plain (.inl same)]
    exact numlock.trans follows.numlock

theorem Follows.press (follows : u.Follows history) (place : Key.ofBit i = some key)
    (plain : ¬key.IsLock) : Takes history ⟨key, false⟩ (u.press (BitVec.twoPow 32 i)) := by
  have zero := mask_eq_zero_iff follows.modifiers place
  rw [modifierBit_plain place plain] at zero
  have modifier := Key.isModifier_of_ofBit place
  rw [KeyboardState.press]
  split_ifs with up
  · exact follows.modifier place plain ⟨modifier, zero.mp up⟩ rfl rfl rfl rfl
  · exact follows.repeats modifier fun changes => up (zero.mpr changes.2)

theorem Follows.releaseCount (follows : u.Follows history) (place : Key.ofBit i = some key)
    (plain : ¬key.IsLock) : Takes history ⟨key, true⟩ (u.releaseCount (BitVec.twoPow 32 i)) := by
  have zero := mask_eq_zero_iff follows.modifiers place
  rw [modifierBit_plain place plain] at zero
  have modifier := Key.isModifier_of_ofBit place
  rw [KeyboardState.releaseCount]
  split_ifs with up
  · exact follows.repeats modifier fun changes =>
      Bool.false_ne_true ((zero.mp up).symm.trans changes.2)
  · have down := Bool.eq_true_of_not_eq_false (mt zero.mpr up)
    exact follows.modifier place plain ⟨modifier, down⟩ rfl rfl rfl rfl

theorem Follows.release (follows : u.Follows history) (place : Key.ofBit i = some key)
    (plain : ¬key.IsLock) : Takes history ⟨key, true⟩ (u.release (BitVec.twoPow 32 i)) := by
  have taken := follows.releaseCount place plain
  rw [KeyboardState.releaseCount] at taken
  rw [KeyboardState.release]
  split_ifs at taken ⊢
  · exact taken
  · exact ⟨⟨taken.follows.state, taken.follows.modifiers, taken.follows.capslock,
      taken.follows.numlock⟩, taken.goes⟩

theorem modifiers_toggle (modifiers : u.modifiers = modifiersOf history)
    (place : Key.ofBit i = some key) (lock : key.IsLock) (up : isHeld history key = false)
    (led : BitVec 32) :
    (u.toggle (BitVec.twoPow 32 i) led).modifiers = modifiersOf (⟨key, false⟩ :: history) := by
  have zero := mask_eq_zero_iff modifiers place
  have bit : modifierBit (⟨key, false⟩ :: history) i = !modifierBit history i := by
    simp only [modifierBit, place, if_pos lock, isOn, up, and_self, if_true]
  rw [modifiersOf_cons_of_ofBit place, bit, toggle]
  split_ifs with off on on
  · exact congrArg (· ||| _) modifiers
  · exact absurd (zero.mp off) (by simpa using on)
  · exact absurd (zero.mpr (by simpa using on)) off
  · exact congrArg (· &&& _) modifiers

theorem modifiersOf_up (lock : key.IsLock) :
    modifiersOf (⟨key, true⟩ :: history) = modifiersOf history := by
  apply BitVec.eq_of_getLsbD_eq
  intro i _
  rw [getLsbD_modifiersOf, getLsbD_modifiersOf]
  by_cases place : Key.ofBit i = some key
  · simp only [modifierBit, place, if_pos lock, isOn, Bool.true_eq_false, false_and, and_false,
      if_false]
  · exact modifierBit_cons_of_ne place history

theorem toggle_keeps (mask led : BitVec 32) :
    (u.toggle mask led).state = u.state ∧ (u.toggle mask led).capslock = u.capslock ∧
      (u.toggle mask led).numlock = u.numlock := by
  rw [toggle]
  split_ifs <;> exact ⟨rfl, rfl, rfl⟩

theorem Follows.pressCaps (follows : u.Follows history) :
    Takes history ⟨.capsLock, false⟩ u.pressCaps := by
  rw [KeyboardState.pressCaps, follows.capslock]
  split_ifs with down
  · exact follows.repeats (by decide) fun changes =>
      Bool.false_ne_true (changes.2.symm.trans down)
  · have up := Bool.eq_false_of_not_eq_true down
    obtain ⟨state, capslock, numlock⟩ :=
      toggle_keeps (u := { u with capslock := true }) keymodCaps keyledCaps
    exact ⟨⟨state.trans follows.state,
      modifiers_toggle (u := { u with capslock := true }) (i := 13) follows.modifiers rfl
        (by decide) up _, capslock,
      numlock.trans follows.numlock⟩, iff_of_true rfl ⟨fun _ => ⟨by decide, up⟩, fun _ => rfl⟩⟩

theorem Follows.pressNum (follows : u.Follows history) :
    Takes history ⟨.numLock, false⟩ u.pressNum := by
  rw [KeyboardState.pressNum, follows.numlock]
  split_ifs with down
  · exact follows.repeats (by decide) fun changes =>
      Bool.false_ne_true (changes.2.symm.trans down)
  · have up := Bool.eq_false_of_not_eq_true down
    obtain ⟨state, capslock, numlock⟩ :=
      toggle_keeps (u := { u with numlock := true }) keymodNum keyledNum
    exact ⟨⟨state.trans follows.state,
      modifiers_toggle (u := { u with numlock := true }) (i := 12) follows.modifiers rfl
        (by decide) up _,
      capslock.trans follows.capslock, numlock⟩,
      iff_of_true rfl ⟨fun _ => ⟨by decide, up⟩, fun _ => rfl⟩⟩

theorem Takes.up {u' : KeyboardState} (lock : key.IsLock) (state : u'.state = .base)
    (modifiers : u'.modifiers = modifiersOf history)
    (capslock : u'.capslock = isHeld (⟨key, true⟩ :: history) .capsLock)
    (numlock : u'.numlock = isHeld (⟨key, true⟩ :: history) .numLock) :
    Takes history ⟨key, true⟩ (u', false) :=
  ⟨⟨state, modifiers.trans (modifiersOf_up lock).symm, capslock, numlock⟩,
    iff_of_false Bool.false_ne_true fun taken => Bool.noConfusion (taken.2 lock)⟩

theorem Follows.pressDel (follows : u.Follows history) (other : ¬code.key.IsModifier)
    (plain : ¬code.key.IsLock) : Takes history code u.pressDel := by
  have taken := follows.other other plain
  rw [KeyboardState.pressDel]
  split_ifs
  · exact taken
  all_goals exact ⟨⟨taken.follows.state, taken.follows.modifiers, taken.follows.capslock,
      taken.follows.numlock⟩, taken.goes⟩

theorem Follows.uncount (follows : u.Follows history) (other : ¬code.key.IsModifier)
    (plain : ¬code.key.IsLock) : Takes history code ({ u with ctrlAltDel := 0 }, true) :=
  Follows.other ⟨follows.state, follows.modifiers, follows.capslock, follows.numlock⟩ other plain

/-! ## The codes, byte by byte -/

variable {scan : BitVec 7}

theorem cons_eq {release : Bool} {byte : BitVec 8} (same : BitVec.cons release scan = byte) :
    release = byte.msb ∧ scan = byte.setWidth 7 := by
  subst same
  exact ⟨BitVec.msb_cons.symm, BitVec.setWidth_cons.symm⟩

theorem isModifier_base {noPrefix : scan ≠ 0x60 ∧ scan ≠ 0x61}
    (modifier : (Key.base scan noPrefix).IsModifier) :
    scan ∈ [0x1D#7, 0x2A#7, 0x36#7, 0x38#7, 0x3A#7, 0x45#7] := by
  obtain ⟨i, bound, place⟩ := modifier
  interval_cases i <;> simp_all [Key.ofBit, Key.leftShift, Key.rightShift, Key.leftCtrl,
    Key.rightCtrl, Key.leftAlt, Key.rightAlt, Key.leftMeta, Key.rightMeta, Key.numLock,
    Key.capsLock]

theorem isModifier_extended (modifier : (Key.extended scan).IsModifier) :
    scan ∈ [0x1D#7, 0x38#7, 0x5B#7, 0x5C#7] := by
  obtain ⟨i, bound, place⟩ := modifier
  interval_cases i <;> simp_all [Key.ofBit, Key.leftShift, Key.rightShift, Key.leftCtrl,
    Key.rightCtrl, Key.leftAlt, Key.rightAlt, Key.leftMeta, Key.rightMeta, Key.numLock,
    Key.capsLock]

theorem Takes.ite {condition : Prop} [Decidable condition] {yes no : KeyboardState × Bool}
    (taken : condition → Takes history code yes) (left : ¬condition → Takes history code no) :
    Takes history code (if condition then yes else no) := by
  split_ifs with holds
  · exact taken holds
  · exact left holds

theorem Follows.switchBase (follows : u.Follows history) (noPrefix : scan ≠ 0x60 ∧ scan ≠ 0x61)
    (release : Bool) :
    Takes history ⟨.base scan noPrefix, release⟩ (u.switchBase (BitVec.cons release scan)) := by
  rw [KeyboardState.switchBase]
  refine .ite (fun same => ?_) fun _ => .ite (fun same => ?_) fun _ => .ite (fun same => ?_)
    fun ctrl => .ite (fun same => ?_) fun ctrl' => .ite (fun same => ?_) fun lshift =>
    .ite (fun same => ?_) fun rshift => .ite (fun same => ?_) fun lshift' =>
    .ite (fun same => ?_) fun rshift' => .ite (fun same => ?_) fun alt =>
    .ite (fun same => ?_) fun alt' => .ite (fun same => ?_) fun caps =>
    .ite (fun same => ?_) fun caps' => .ite (fun same => ?_) fun num =>
    .ite (fun same => ?_) fun num' => .ite (fun same => ?_) fun _ =>
    .ite (fun same => ?_) fun _ => ?_
  · exact absurd (cons_eq same).2 noPrefix.1
  · exact absurd (cons_eq same).2 noPrefix.2
  · obtain ⟨rfl, rfl⟩ := cons_eq same
    exact follows.press (i := 6) rfl (by decide +revert)
  · obtain ⟨rfl, rfl⟩ := cons_eq same
    exact follows.releaseCount (i := 6) rfl (by decide +revert)
  · obtain ⟨rfl, rfl⟩ := cons_eq same
    exact follows.press (i := 0) rfl (by decide +revert)
  · obtain ⟨rfl, rfl⟩ := cons_eq same
    exact follows.press (i := 1) rfl (by decide +revert)
  · obtain ⟨rfl, rfl⟩ := cons_eq same
    exact follows.release (i := 0) rfl (by decide +revert)
  · obtain ⟨rfl, rfl⟩ := cons_eq same
    exact follows.release (i := 1) rfl (by decide +revert)
  · obtain ⟨rfl, rfl⟩ := cons_eq same
    exact follows.press (i := 8) rfl (by decide +revert)
  · obtain ⟨rfl, rfl⟩ := cons_eq same
    exact follows.releaseCount (i := 8) rfl (by decide +revert)
  · obtain ⟨rfl, rfl⟩ := cons_eq same
    exact follows.pressCaps
  · obtain ⟨rfl, rfl⟩ := cons_eq same
    exact .up (by decide +revert) follows.state follows.modifiers rfl follows.numlock
  · obtain ⟨rfl, rfl⟩ := cons_eq same
    exact follows.pressNum
  · obtain ⟨rfl, rfl⟩ := cons_eq same
    exact .up (by decide +revert) follows.state follows.modifiers follows.capslock rfl
  · obtain ⟨rfl, rfl⟩ := cons_eq same
    exact follows.pressDel (by decide +revert) (by decide +revert)
  · obtain ⟨rfl, rfl⟩ := cons_eq same
    exact follows.uncount (by decide +revert) (by decide +revert)
  · have other : ¬(Key.base scan noPrefix).IsModifier := fun modifier => by
      have listed := isModifier_base modifier
      simp only [List.mem_cons, List.not_mem_nil, or_false] at listed
      rcases listed with rfl | rfl | rfl | rfl | rfl | rfl <;> cases release <;> contradiction
    exact follows.other other fun lock => other (Key.isModifier_of_isLock lock)

theorem Follows.switchE0 (follows : u.Follows history) (scan : BitVec 7) (release : Bool)
    (shift : scan ≠ 0x2A) :
    Takes history ⟨.extended scan, release⟩ (u.switchE0 (BitVec.cons release scan)) := by
  rw [KeyboardState.switchE0]
  refine .ite (fun same => ?_) fun ctrl => .ite (fun same => ?_) fun ctrl' =>
    .ite (fun same => ?_) fun alt => .ite (fun same => ?_) fun alt' =>
    .ite (fun same => absurd (cons_eq same).2 shift) fun _ =>
    .ite (fun same => absurd (cons_eq same).2 shift) fun _ => .ite (fun same => ?_) fun lgui =>
    .ite (fun same => ?_) fun lgui' => .ite (fun same => ?_) fun rgui =>
    .ite (fun same => ?_) fun rgui' => .ite (fun same => ?_) fun _ =>
    .ite (fun same => ?_) fun _ => ?_
  · obtain ⟨rfl, rfl⟩ := cons_eq same
    exact follows.press (i := 7) rfl (by decide)
  · obtain ⟨rfl, rfl⟩ := cons_eq same
    exact follows.releaseCount (i := 7) rfl (by decide)
  · obtain ⟨rfl, rfl⟩ := cons_eq same
    exact follows.press (i := 9) rfl (by decide)
  · obtain ⟨rfl, rfl⟩ := cons_eq same
    exact follows.releaseCount (i := 9) rfl (by decide)
  · obtain ⟨rfl, rfl⟩ := cons_eq same
    exact follows.press (i := 10) rfl (by decide)
  · obtain ⟨rfl, rfl⟩ := cons_eq same
    exact follows.releaseCount (i := 10) rfl (by decide)
  · obtain ⟨rfl, rfl⟩ := cons_eq same
    exact follows.press (i := 11) rfl (by decide)
  · obtain ⟨rfl, rfl⟩ := cons_eq same
    exact follows.releaseCount (i := 11) rfl (by decide)
  · obtain ⟨rfl, rfl⟩ := cons_eq same
    exact follows.pressDel (by decide) (by decide)
  · obtain ⟨rfl, rfl⟩ := cons_eq same
    exact follows.uncount (by decide) (by decide)
  · have other : ¬(Key.extended scan).IsModifier := fun modifier => by
      have listed := isModifier_extended modifier
      simp only [List.mem_cons, List.not_mem_nil, or_false] at listed
      rcases listed with rfl | rfl | rfl | rfl <;> cases release <;> contradiction
    exact follows.other other fun lock => other (Key.isModifier_of_isLock lock)

def queued (made : KeyboardState × KeyboardEvent × Bool) : KeyboardState × Option KeyboardEvent :=
  (made.1, if made.2.2 then some { made.2.1 with modifiers := made.1.modifiers.setWidth 16 }
    else none)

def decode (u : KeyboardState) (byte : BitVec 8) : KeyboardState × Option KeyboardEvent :=
  queued (u.makeEvent {} byte)

def decodeAll (u : KeyboardState) : List (BitVec 8) → KeyboardState × List KeyboardEvent
  | [] => (u, [])
  | byte :: bytes =>
    let next := u.decode byte
    let last := next.1.decodeAll bytes
    (last.1, next.2.toList ++ last.2)

theorem cons_low (release : Bool) (scan : BitVec 7) :
    BitVec.cons release scan &&& 0x7f = BitVec.cons false scan ∧
      BitVec.cons release scan ||| 0x80 = BitVec.cons true scan ∧
        (0x7f < BitVec.cons release scan ↔ release = true) := by
  decide +revert

theorem decode_finish {switched : KeyboardState × Bool} {m : KeyboardEvent} {byte : BitVec 8}
    (taken : Takes history code switched) (symbol : m.key = code.key.symbol)
    (release : 0x7f < byte ↔ code.release = true) :
    queued (if switched.2 then switched.1.finish m byte else (switched.1, m, false)) =
      (switched.1, eventOf history code) := by
  have modifiers := taken.follows.modifiers
  have goes := taken.goes
  by_cases zero : code.key.symbol = 0
  · have none : eventOf history code = none := if_neg fun event => event.1 zero
    rw [none]
    split_ifs
    · rw [finish, if_pos (symbol.trans zero)]
      rfl
    · rfl
  · have event : IsEvent history code ↔ switched.2 = true :=
      ⟨fun event => goes.mpr event.2, fun on => ⟨zero, goes.mp on⟩⟩
    rw [eventOf]
    by_cases on : switched.2 = true
    · rw [if_pos on, if_pos (event.mpr on), finish, if_neg (symbol ▸ zero)]
      simp only [queued, modifiers, symbol, release, if_true]
    · rw [if_neg on, if_neg (mt event.mp on)]
      rfl

theorem Follows.decodeAll (follows : u.Follows history) (code : KeyCode) :
    (u.decodeAll code.bytes).1.Follows (code :: history) ∧
      (u.decodeAll code.bytes).2 = (eventOf history code).toList := by
  obtain ⟨key, release⟩ := code
  cases key with
  | base scan noPrefix =>
    obtain ⟨low, -, high⟩ := cons_low release scan
    have taken := follows.switchBase noPrefix release
    have decoded : u.decode (BitVec.cons release scan) =
        ((u.switchBase (BitVec.cons release scan)).1,
          eventOf history ⟨.base scan noPrefix, release⟩) := by
      rw [decode, makeEvent, follows.state]
      exact decode_finish taken (congrArg keyAt low) high
    rw [KeyCode.bytes, KeyboardState.decodeAll, decoded]
    exact ⟨taken.follows, List.append_nil _⟩
  | extended scan =>
    obtain ⟨-, up, high⟩ := cons_low release scan
    have first : u.decode 0xE0 = ({ u with state := .e0 }, none) := by
      rw [decode, makeEvent, follows.state]
      rfl
    have again : { u with state := .base }.Follows history :=
      ⟨rfl, follows.modifiers, follows.capslock, follows.numlock⟩
    by_cases shift : scan = 0x2A
    · -- part of the codes of `Print Screen`
      subst shift
      have same : ¬Changes history ⟨.extended 0x2A, release⟩ := fun changes =>
        absurd changes.1 (show ¬(Key.extended 0x2A).IsModifier by decide)
      have silent : eventOf history ⟨.extended 0x2A, release⟩ = none :=
        if_neg fun event => event.1 rfl
      rw [KeyCode.bytes, KeyboardState.decodeAll, first, silent]
      cases release <;> exact ⟨again.stays same, rfl⟩
    · have taken := again.switchE0 scan release shift
      have decoded : { u with state := .e0 }.decode (BitVec.cons release scan) =
          (({ u with state := .base }.switchE0 (BitVec.cons release scan)).1,
            eventOf history ⟨.extended scan, release⟩) := by
        rw [decode, makeEvent]
        exact decode_finish taken (congrArg keyAt up) high
      rw [KeyCode.bytes, KeyboardState.decodeAll, first, KeyboardState.decodeAll, decoded]
      exact ⟨taken.follows, List.append_nil _⟩
  | pause =>
    have taken : Takes history ⟨.pause, release⟩ ({ u with state := .base }, true) :=
      Follows.other ⟨rfl, follows.modifiers, follows.capslock, follows.numlock⟩
        (by decide +revert) (by decide +revert)
    have first : u.decode 0xE1 = ({ u with state := .e1 }, none) := by
      rw [decode, makeEvent, follows.state]
      rfl
    cases release with
    | false =>
      have third : { u with state := .e11d }.decode 0x45 =
          ({ u with state := .base }, eventOf history ⟨.pause, false⟩) :=
        decode_finish (m := { key := keyPause }) taken rfl (by decide)
      rw [KeyCode.bytes, KeyboardState.decodeAll, first]
      exact ⟨taken.follows, congrArg (fun r => r.2.toList ++ []) third |>.trans (by simp)⟩
    | true =>
      have third : { u with state := .e11d }.decode 0xC5 =
          ({ u with state := .base }, eventOf history ⟨.pause, true⟩) :=
        decode_finish (m := { key := keyPause }) taken rfl (by decide)
      rw [KeyCode.bytes, KeyboardState.decodeAll, first]
      exact ⟨taken.follows, congrArg (fun r => r.2.toList ++ []) third |>.trans (by simp)⟩

end KeyboardState

end Uos
