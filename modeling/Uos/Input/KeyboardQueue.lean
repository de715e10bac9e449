import Uos.Input.Keystrokes

/-!
# A keyboard and its readers

The bytes of the codes arrive between calls that take events.  The keyboard is right as long as the
queue has room for a whole code, or is full for all of its bytes and the code matters to no key.
-/

namespace Uos

open List

/-- What happens at a keyboard. -/
inductive KeyboardInput where
  | byte (byte : BitVec 8)
  | getEvent
  | waitEvent

def KeyboardInput.byte? : KeyboardInput → Option (BitVec 8)
  | .byte c => some c
  | .getEvent | .waitEvent => none

theorem KeyboardInput.call_or_byte (input : KeyboardInput) :
    input.byte? = none ∨ ∃ c, input = .byte c := by
  cases input with
  | byte c => exact .inr ⟨c, rfl⟩
  | getEvent | waitEvent => exact .inl rfl

/-- A keyboard with the events that were returned. -/
structure KeyboardSession where
  keyboard : KeyboardPs2 := {}
  returned : List KeyboardEvent := []

/-- A code, with the calls made while its bytes arrive. -/
structure Stroke where
  code : KeyCode
  inputs : List KeyboardInput
  spells : inputs.filterMap KeyboardInput.byte? = code.bytes

namespace KeyboardSession

def step (s : KeyboardSession) : KeyboardInput → KeyboardSession
  | .byte byte => { s with keyboard := s.keyboard.receiveByte byte }
  | .getEvent =>
    { keyboard := s.keyboard.getEvent.1
      returned := s.returned ++ s.keyboard.getEvent.2.toList }
  | .waitEvent =>
    { keyboard := s.keyboard.waitEvent.1
      returned := s.returned ++ s.keyboard.waitEvent.2.toList }

def run (s : KeyboardSession) (inputs : List KeyboardInput) : KeyboardSession :=
  inputs.foldl step s

def output (s : KeyboardSession) : List KeyboardEvent :=
  s.returned ++ s.keyboard.inBuf.contents

def hasRoom (s : KeyboardSession) : Bool :=
  s.keyboard.newlast ≠ s.keyboard.inBuf.first

def Finds (room : Bool) : KeyboardSession → List KeyboardInput → Prop
  | _, [] => True
  | s, input :: inputs =>
    (input.byte?.isSome → s.hasRoom = room) ∧ Finds room (s.step input) inputs

instance (room : Bool) : ∀ (s : KeyboardSession) (inputs : List KeyboardInput),
    Decidable (s.Finds room inputs)
  | _, [] => .isTrue trivial
  | s, input :: inputs =>
    let _ := instDecidableFinds room (s.step input) inputs
    inferInstanceAs (Decidable (_ ∧ _))

end KeyboardSession

namespace Keystrokes

/-- Does a code matter to the state of the keyboard?  The end of the codes of `Print Screen` without
its prefix is taken for the answer to a self-test unless the left shift key is held. -/
def Matters (history : List KeyCode) (code : KeyCode) : Prop :=
  Changes history code ∨ code = ⟨.extended 0x2A, true⟩ ∧ isHeld history .leftShift = false

instance (history : List KeyCode) (code : KeyCode) : Decidable (Matters history code) :=
  inferInstanceAs (Decidable (_ ∨ _))

/-- The codes of a keyboard that sends no answers to self-tests: the left shift key goes up only if
it is held. -/
def Sent : List KeyCode → List Stroke → Prop
  | _, [] => True
  | history, stroke :: strokes =>
    (stroke.code = ⟨.leftShift, true⟩ → isHeld history .leftShift = true) ∧
      Sent (stroke.code :: history) strokes

/-- Every code finds room with all bytes, or none, and then it does not matter. -/
def Kept : KeyboardSession → List KeyCode → List Stroke → Prop
  | _, _, [] => True
  | s, history, stroke :: strokes =>
    (s.Finds true stroke.inputs ∨ s.Finds false stroke.inputs ∧ ¬Matters history stroke.code) ∧
      Kept (s.run stroke.inputs) (stroke.code :: history) strokes

def eventsOf : KeyboardSession → List KeyCode → List Stroke → List KeyboardEvent
  | _, _, [] => []
  | s, history, stroke :: strokes =>
    (if s.Finds true stroke.inputs then (eventOf history stroke.code).toList else []) ++
      eventsOf (s.run stroke.inputs) (stroke.code :: history) strokes

/-- After the codes, and after calls behind them, the modifiers are those of the keys, and the
events are those of the codes that found room. -/
def Right (strokes : List Stroke) : Prop :=
  ∀ calls : List KeyboardInput, (∀ call ∈ calls, call.byte? = none) →
    let s := (KeyboardSession.run {} (strokes.flatMap Stroke.inputs)).run calls
    s.keyboard.decoder.modifiers = modifiersOf (strokes.map Stroke.code).reverse ∧
      s.output = eventsOf {} [] strokes

end Keystrokes

namespace KeyboardState

/-- A byte that is taken for the answer to a self-test. -/
def SelfTest (u : KeyboardState) (byte : BitVec 8) : Prop :=
  byte = 0xAA ∧ u.modifiers &&& keymodLshift = 0 ∧ u.state = .base

def Plain : KeyboardState → List (BitVec 8) → Prop
  | _, [] => True
  | u, byte :: bytes => ¬u.SelfTest byte ∧ (u.decode byte).1.Plain bytes

variable {u : KeyboardState} {history : List KeyCode} {code : KeyCode}

theorem queued_makeEvent (u : KeyboardState) (m : KeyboardEvent) (byte : BitVec 8) :
    queued (u.makeEvent m byte) = u.decode byte := by
  rw [decode, makeEvent, makeEvent]
  cases u.state with
  | base | e0 =>
    dsimp only
    split_ifs
    · rw [finish, finish]
      split_ifs <;> rfl
    · rfl
  | e1 => split_ifs <;> rfl
  | e11d => split_ifs <;> rfl

theorem Follows.not_selfTest (follows : u.Follows history)
    (held : isHeld history .leftShift = true) (byte : BitVec 8) : ¬u.SelfTest byte := by
  rintro ⟨-, up, -⟩
  have off := (mask_eq_zero_iff (i := 0) follows.modifiers rfl).mp up
  rw [modifierBit_plain rfl (by decide)] at off
  exact Bool.false_ne_true (off.symm.trans held)

theorem Follows.plain (follows : u.Follows history)
    (sent : code = ⟨.leftShift, true⟩ → isHeld history .leftShift = true) :
    u.Plain code.bytes := by
  obtain ⟨key, release⟩ := code
  cases key with
  | base scan noPrefix =>
    refine ⟨fun test => ?_, trivial⟩
    obtain ⟨rfl, rfl⟩ := cons_eq test.1
    exact follows.not_selfTest (sent rfl) _ test
  | extended scan =>
    refine ⟨fun test => absurd test.1 (by decide), fun test => ?_, trivial⟩
    have state := test.2.2
    rw [decode, makeEvent, follows.state] at state
    exact ScanState.noConfusion state
  | pause =>
    have first : (u.decode 0xE1).1 = { u with state := .e1 } := by
      rw [decode, makeEvent, follows.state]
      rfl
    cases release <;> refine ⟨fun test => absurd test.1 (by decide), fun test =>
      absurd test.1 (by decide), fun test => absurd test.1 (by decide), trivial⟩

theorem Follows.plain_full (follows : u.Follows history)
    (sent : code = ⟨.leftShift, true⟩ → isHeld history .leftShift = true)
    (other : ¬Keystrokes.Matters history code) : ∀ byte ∈ code.bytes, ¬u.SelfTest byte := by
  intro byte member test
  obtain rfl := test.1
  have down : ¬isHeld history .leftShift = true := fun held =>
    follows.not_selfTest held _ test
  obtain ⟨key, release⟩ := code
  cases key with
  | base scan noPrefix =>
    obtain ⟨rfl, rfl⟩ := cons_eq (mem_singleton.mp member).symm
    exact down (sent rfl)
  | extended scan =>
    rcases mem_pair.mp member with impossible | same
    · exact absurd impossible (by decide)
    · obtain ⟨rfl, rfl⟩ := cons_eq same.symm
      exact other (.inr ⟨rfl, Bool.eq_false_of_not_eq_true down⟩)
  | pause => cases release <;> exact absurd member (by decide)

end KeyboardState

namespace KeyboardSession

variable {s : KeyboardSession}

theorem receiveByte_room (valid : s.keyboard.inBuf.Valid) {byte : BitVec 8}
    (other : ¬s.keyboard.decoder.SelfTest byte) (room : s.hasRoom = true) :
    (s.step (.byte byte)).keyboard.decoder = (s.keyboard.decoder.decode byte).1 ∧
      (s.step (.byte byte)).output = s.output ++ (s.keyboard.decoder.decode byte).2.toList ∧
        (s.step (.byte byte)).keyboard.inBuf.Valid := by
  have free := of_decide_eq_true room
  rw [KeyboardState.SelfTest] at other
  rw [← KeyboardState.queued_makeEvent _ (s.keyboard.inBuf.cells s.keyboard.inBuf.last)]
  rw [step, KeyboardPs2.receiveByte, if_neg other, if_neg free, output]
  generalize s.keyboard.decoder.makeEvent _ byte = made
  obtain ⟨decoder, m, flag⟩ := made
  cases flag with
  | false =>
    refine ⟨rfl, ?_, valid.first_lt, valid.last_lt⟩
    exact congrArg (s.returned ++ ·) (Ring.contents_set_last valid m) |>.trans
      (append_nil _).symm
  | true =>
    refine ⟨rfl, ?_, valid.put _ (Ring.next_lt (Nat.zero_lt_of_lt valid.last_lt) _)⟩
    exact (congrArg (s.returned ++ ·) (Ring.contents_put valid (Ne.symm free) _)).trans
      (append_assoc ..).symm

theorem receiveByte_full {byte : BitVec 8} (other : ¬s.keyboard.decoder.SelfTest byte)
    (full : s.hasRoom = false) : s.step (.byte byte) = s := by
  have last : s.keyboard.newlast = s.keyboard.inBuf.first :=
    not_not.mp (of_decide_eq_false full)
  rw [KeyboardState.SelfTest] at other
  rw [step, KeyboardPs2.receiveByte, if_neg other, if_pos last]

theorem step_call (valid : s.keyboard.inBuf.Valid) {input : KeyboardInput}
    (call : input.byte? = none) :
    (s.step input).keyboard.decoder = s.keyboard.decoder ∧ (s.step input).output = s.output ∧
      (s.step input).keyboard.inBuf.Valid := by
  have taken : s.step .getEvent = s.step input := by
    cases input with
    | byte c => exact absurd call (Option.some_ne_none c)
    | getEvent | waitEvent => rfl
  rw [← taken, step, KeyboardPs2.getEvent]
  split_ifs with empty
  · exact ⟨rfl, by rw [output, output, Option.toList_none, append_nil], valid⟩
  · refine ⟨rfl, ?_, valid.take⟩
    rw [output, output, Ring.contents_take valid empty]
    exact append_assoc ..

theorem run_room (inputs : List KeyboardInput) (valid : s.keyboard.inBuf.Valid)
    (room : s.Finds true inputs)
    (plain : s.keyboard.decoder.Plain (inputs.filterMap KeyboardInput.byte?)) :
    let decoded := s.keyboard.decoder.decodeAll (inputs.filterMap KeyboardInput.byte?)
    (s.run inputs).keyboard.decoder = decoded.1 ∧ (s.run inputs).output = s.output ++ decoded.2 ∧
      (s.run inputs).keyboard.inBuf.Valid := by
  induction inputs generalizing s with
  | nil => exact ⟨rfl, (append_nil _).symm, valid⟩
  | cons input inputs ih =>
    obtain call | ⟨c, rfl⟩ := input.call_or_byte
    · rw [filterMap_cons_none call] at plain ⊢
      obtain ⟨decoder, output, valid'⟩ := step_call valid call
      have rest := ih valid' room.2 (decoder ▸ plain)
      rw [decoder, output] at rest
      exact rest
    · obtain ⟨decoder, output, valid'⟩ := receiveByte_room valid plain.1 (room.1 rfl)
      obtain ⟨decoder', output', valid''⟩ := ih valid' room.2 (decoder ▸ plain.2)
      rw [output, append_assoc, decoder] at output'
      exact ⟨decoder'.trans (by rw [decoder]; rfl), output', valid''⟩

theorem run_full (inputs : List KeyboardInput) (valid : s.keyboard.inBuf.Valid)
    (full : s.Finds false inputs)
    (plain : ∀ c ∈ inputs.filterMap KeyboardInput.byte?, ¬s.keyboard.decoder.SelfTest c) :
    (s.run inputs).keyboard.decoder = s.keyboard.decoder ∧ (s.run inputs).output = s.output ∧
      (s.run inputs).keyboard.inBuf.Valid := by
  induction inputs generalizing s with
  | nil => exact ⟨rfl, rfl, valid⟩
  | cons input inputs ih =>
    obtain call | ⟨c, rfl⟩ := input.call_or_byte
    · rw [filterMap_cons_none call] at plain
      obtain ⟨decoder, output, valid'⟩ := step_call valid call
      have rest := ih valid' full.2 (decoder ▸ plain)
      rw [decoder, output] at rest
      exact rest
    · have same := receiveByte_full (plain c mem_cons_self) (full.1 rfl)
      rw [run, foldl_cons, same]
      exact ih valid (same ▸ full.2) fun d member => plain d (mem_cons_of_mem c member)

theorem run_calls (calls : List KeyboardInput) (valid : s.keyboard.inBuf.Valid)
    (none : ∀ call ∈ calls, call.byte? = none) :
    (s.run calls).keyboard.decoder = s.keyboard.decoder ∧ (s.run calls).output = s.output := by
  induction calls generalizing s with
  | nil => exact ⟨rfl, rfl⟩
  | cons call calls ih =>
    obtain ⟨decoder, output, valid'⟩ := step_call valid (none call mem_cons_self)
    have rest := ih valid' fun other member => none other (mem_cons_of_mem call member)
    exact ⟨rest.1.trans decoder, rest.2.trans output⟩

end KeyboardSession

namespace Keystrokes

open KeyboardSession

theorem follows_of_kept (strokes : List Stroke) {s : KeyboardSession} {history : List KeyCode}
    (valid : s.keyboard.inBuf.Valid) (follows : s.keyboard.decoder.Follows history)
    (sent : Sent history strokes) (kept : Kept s history strokes) :
    let s' := s.run (strokes.flatMap Stroke.inputs)
    s'.keyboard.inBuf.Valid ∧
      s'.keyboard.decoder.Follows ((strokes.map Stroke.code).reverse ++ history) ∧
      s'.output = s.output ++ eventsOf s history strokes := by
  induction strokes generalizing s history with
  | nil => exact ⟨valid, follows, (append_nil _).symm⟩
  | cons stroke strokes ih =>
    have after : (s.run stroke.inputs).keyboard.inBuf.Valid ∧
        (s.run stroke.inputs).keyboard.decoder.Follows (stroke.code :: history) ∧
        (s.run stroke.inputs).output = s.output ++
          if s.Finds true stroke.inputs then (eventOf history stroke.code).toList else [] := by
      split_ifs with room
      · have decoded := follows.decodeAll stroke.code
        have plain := follows.plain sent.1
        rw [← stroke.spells] at decoded plain
        obtain ⟨decoder, output, valid'⟩ := run_room stroke.inputs valid room plain
        exact ⟨valid', decoder ▸ decoded.1, decoded.2 ▸ output⟩
      · obtain ⟨full, other⟩ := kept.1.resolve_left room
        have plain := follows.plain_full sent.1 other
        rw [← stroke.spells] at plain
        obtain ⟨decoder, output, valid'⟩ := run_full stroke.inputs valid full plain
        exact ⟨valid', decoder ▸ follows.stays fun changes => other (.inl changes),
          output.trans (append_nil _).symm⟩
    obtain ⟨valid', follows', output⟩ := after
    have rest := ih valid' follows' sent.2 kept.2
    rw [flatMap_cons, run, foldl_append, eventsOf, map_cons, reverse_cons,
      append_assoc, ← append_assoc s.output, ← output]
    exact rest

/-- The key `A` goes down. -/
def pressA : Stroke where
  code := ⟨.base 0x1E (by decide), false⟩
  inputs := [.byte 0x1E]
  spells := rfl

def pressShift : Stroke where
  code := ⟨.leftShift, false⟩
  inputs := [.byte 0x2A]
  spells := rfl

end Keystrokes
end Uos
