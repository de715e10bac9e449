import Mathlib.Algebra.Order.Ring.Int
import Mathlib.Tactic.Set
import Uos.Usb.Usbdev

/-!
# Transfers to the host

A transfer sends bytes of what its pointer points into, and no others.
-/

namespace Uos.Usb

open List

def Source.size (d : Device) : Source → Int
  | .null => 0
  | .status => 2
  | .curConf => 1
  | .devDesc => 18
  | .qualifDesc => (d.qualifDesc.map fun qualif => qualif.bytes.length).getD 0
  | .confDesc n => (d.confDesc[n]?.map fun conf => conf.bytes.length).getD 0
  | .string n => (d.strings[n]?.map fun string => string.bytes.length).getD 0
  | .handler size => size

def Call.Inside (d : Device) : Call → Prop
  | .epWaitIn _ _ data offset size _ => 0 ≤ offset ∧ 0 ≤ size ∧ offset + size ≤ data.size d
  | _ => True

def Call.From (source : Source) : Call → Prop
  | .epWaitIn _ _ data _ _ _ => data = source
  | _ => True

/-- The rest of a transfer lies inside of what it sends, and one that goes on has a rest. -/
structure EpIn.Sound (d : Device) (epi : EpIn) : Prop where
  rest : 0 ≤ epi.restLoad → 0 ≤ epi.offset ∧ epi.offset + epi.restLoad ≤ epi.data.size d
  goes : epi.state = .waitIn → 0 < epi.maxSize → 0 ≤ epi.restLoad

namespace EpIn

variable {d : Device} {epi : EpIn}

theorem inSz_bounds (rest : 0 ≤ epi.restLoad) : 0 ≤ epi.inSz ∧ epi.inSz ≤ epi.restLoad := by
  rw [inSz]
  split
  · exact ⟨rest, le_rfl⟩
  · exact ⟨Int.natCast_nonneg _, by omega⟩

theorem Sound.advance (sound : epi.Sound d) (rest : 0 ≤ epi.restLoad) : epi.advance.Sound d where
  rest more := by
    obtain ⟨low, high⟩ := sound.rest rest
    obtain ⟨positive, bound⟩ := inSz_bounds rest
    simp only [EpIn.advance] at more ⊢
    split at more
    · contradiction
    · rename_i some
      rw [if_neg some]
      omega
  goes more positive := by
    simp only [EpIn.advance, loaded] at more positive ⊢
    split at more
    · contradiction
    · rename_i goes
      simp only [more, true_and, not_or, not_lt] at goes
      have whole : epi.inSz = epi.maxSize := if_neg (not_lt.mpr goes.1)
      have some : epi.inSz ≠ 0 := by omega
      rw [if_neg some]
      omega

theorem sound_start {pid : Nat} {data : Source} {reqSize realSize : Int}
    (inside : 0 ≤ reqSize → 0 ≤ realSize →
      (if reqSize < realSize then reqSize else realSize) ≤ data.size d)
    (asked : 0 ≤ reqSize ∨ reqSize = realSize) :
    (epi.start pid data reqSize realSize).Sound d where
  rest more := by
    simp only [start] at more ⊢
    have both : 0 ≤ reqSize ∧ 0 ≤ realSize := by
      split at more
      · omega
      · omega
    have fits := inside both.1 both.2
    omega
  goes more positive := by
    simp only [start, startState] at more positive ⊢
    split at more
    · contradiction
    split at more
    · contradiction
    rename_i long
    rw [not_or, not_lt] at long
    split
    · omega
    · omega

end EpIn

namespace Usbdev

/-- All transfers are sound, and so were the calls. -/
structure Sound (d : Device) (u : Usbdev) : Prop where
  transfers : ∀ ep, (u.epIn ep).Sound d
  inside : ∀ c ∈ u.calls, c.Inside d

variable {d : Device} {u u' u'' : Usbdev} {ep : Nat}

@[simp]
theorem setIn_self (epi : EpIn) : (u.setIn ep epi).epIn ep = epi :=
  Function.update_self ..

theorem setIn_of_ne {other : Nat} (different : other ≠ ep) (epi : EpIn) :
    (u.setIn ep epi).epIn other = u.epIn other :=
  Function.update_of_ne different ..

theorem Sound.congr (sound : Sound d u) (epIn : u'.epIn = u.epIn) (calls : u'.calls = u.calls) :
    Sound d u' where
  transfers ep := by
    rw [epIn]
    exact sound.transfers ep
  inside c member := by
    rw [calls] at member
    exact sound.inside c member

theorem Sound.call (sound : Sound d u) {c : Call} (inside : c.Inside d) : Sound d (u.call c) where
  transfers := sound.transfers
  inside c' member := by
    rcases mem_append.mp member with old | new
    · exact sound.inside c' old
    · obtain rfl : c' = c := mem_singleton.mp new
      exact inside

theorem Sound.setIn (sound : Sound d u) {epi : EpIn} (transfer : epi.Sound d) :
    Sound d (u.setIn ep epi) where
  transfers ep' := by
    rcases eq_or_ne ep' ep with rfl | other
    · rw [setIn_self]
      exact transfer
    · rw [setIn_of_ne other]
      exact sound.transfers ep'
  inside := sound.inside

theorem Sound.setOut (sound : Sound d u) (epo : EpOut) : Sound d (u.setOut ep epo) :=
  sound.congr rfl rfl

theorem Sound.inState (sound : Sound d u) {state : EpState} (stops : state ≠ .waitIn) :
    Sound d (u.inState ep state) :=
  sound.setIn ⟨(sound.transfers ep).rest, fun goes => absurd goes stops⟩

theorem Sound.doIn (sound : Sound d u) (rest : 0 ≤ (u.epIn ep).restLoad) :
    Sound d (u.doIn ep) := by
  obtain ⟨low, high⟩ := (sound.transfers ep).rest rest
  obtain ⟨positive, bound⟩ := EpIn.inSz_bounds rest
  apply Sound.setIn
  · exact sound.call ⟨low, positive, by omega⟩
  · exact (sound.transfers ep).advance rest

theorem Sound.load (sound : Sound d u) (room : List Bool) : Sound d (Usbdev.load ep room u) := by
  induction room generalizing u with
  | nil => exact sound
  | cons here room ih =>
    rw [Usbdev.load]
    split
    · rename_i more
      exact ih (sound.doIn more.2.1)
    · exact sound

theorem Sound.startIn (sound : Sound d u) {pid : Nat} {data : Source} {reqSize realSize : Int}
    {outside : Outside}
    (inside : 0 ≤ reqSize → 0 ≤ realSize →
      (if reqSize < realSize then reqSize else realSize) ≤ data.size d)
    (asked : 0 ≤ reqSize ∨ reqSize = realSize) :
    Sound d (u.startIn ep pid data reqSize realSize outside) := by
  exact (sound.setIn (EpIn.sound_start inside asked)).load outside.room

/-- Code that goes on with a transfer. -/
structure Sends (u : Usbdev) (ep : Nat) (source : Source) (u' : Usbdev) : Prop where
  calls : ∃ more, u'.calls = u.calls ++ more ∧ ∀ c ∈ more, c.From source
  data : (u'.epIn ep).data = source

theorem doIn_sends : Sends u ep (u.epIn ep).data (u.doIn ep) where
  calls := by
    refine ⟨[_], rfl, fun c member => ?_⟩
    obtain rfl := mem_singleton.mp member
    rfl
  data := by
    rw [doIn, setIn_self]
    rfl

theorem load_sends (room : List Bool) : Sends u ep (u.epIn ep).data (load ep room u) := by
  induction room generalizing u with
  | nil => exact ⟨⟨[], (append_nil _).symm, fun c none => absurd none not_mem_nil⟩, rfl⟩
  | cons here room ih =>
    rw [load]
    split
    · obtain ⟨⟨first, calls, source⟩, data⟩ := @doIn_sends u ep
      obtain ⟨⟨rest, calls', source'⟩, data'⟩ := @ih (u.doIn ep)
      rw [data] at source' data'
      refine ⟨⟨first ++ rest, ?_, fun c member => ?_⟩, data'⟩
      · rw [calls', calls, append_assoc]
      · rcases mem_append.mp member with old | new
        · exact source c old
        · exact source' c new
    · exact ⟨⟨[], (append_nil _).symm, fun c none => absurd none not_mem_nil⟩, rfl⟩

theorem startIn_sends {pid : Nat} {data : Source} {reqSize realSize : Int} {outside : Outside} :
    Sends u ep data (u.startIn ep pid data reqSize realSize outside) := by
  have sends := @load_sends (u.setIn ep ((u.epIn ep).start pid data reqSize realSize)) ep
    outside.room
  rw [setIn_self] at sends
  exact ⟨sends.calls, sends.data⟩

end Usbdev
end Uos.Usb
