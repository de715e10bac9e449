import Uos.Usb.Requests

/-!
# Events on the bus

In a run whose events stay in the arrays, the stack gives the driver only bytes of what was asked
for, and refuses a request for something that does not exist.
-/

namespace Uos.Usb

open Usbdev

/-- The endpoint and the request that `process_setup` gets during an event. -/
def serves (u : Usbdev) : Event → Option (Nat × Setup)
  | .outDone ep transType data _ =>
    match ((u.preempt ep transType).epOut ep).state with
    | .waitSetup =>
      if transType = .setup ∧ data.length = 8 ∧
          ((Setup.ofBytes data).bmRequestType.toNat &&& 0x80 ≠ 0 ∨
            (Setup.ofBytes data).wLength = 0) then
        some (ep, .ofBytes data)
      else none
    | .setupDataOut =>
      if transType = .out ∧ u.setup.wLength.toNat ≤ u.setupDataCnt + data.length then
        some (ep, u.setup)
      else none
    | _ => none
  | _ => none

/-- An event stays in the arrays, in the buffer of the data stage and in the descriptors. -/
def Fits (d : Device) (u : Usbdev) : Event → Prop
  | .reset => True
  | .outDone ep transType data outside =>
    ep < d.nbEndpoints ∧
    (((u.preempt ep transType).epOut ep).state = .setupDataOut → transType = .out →
      data = [] ∨ u.setupDataCnt + data.length ≤ u.setupData.getD 0) ∧
    ∀ setup, serves u (.outDone ep transType data outside) = some (ep, setup) →
      RequestFits d u setup
  | .inDone ep _ _ =>
    ep < d.nbEndpoints ∧ ((u.epIn ep).state = .waitIn → 0 < (u.epIn ep).maxSize)
  | .ackIn ep _ _ => ep < d.nbEndpoints

/-- What an event may do: all calls of the driver are inside, a request that is served is answered
as it should, and a transfer that goes on keeps to what it sends. -/
structure Proper (d : Device) (u : Usbdev) (e : Event) (u' : Usbdev) : Prop where
  sound : Sound d u'
  answers : ∀ ep setup, serves u e = some (ep, setup) → Answers d u ep setup u'
  goes : ∀ ep size outside, e = .inDone ep size outside → (u.epIn ep).state = .waitIn →
    Usbdev.Sends u ep (u.epIn ep).data u'

namespace Usbdev

variable {d : Device} {u u' : Usbdev} {ep : Nat} {setup : Setup} {outside : Outside}
  {transType : TransType} {data : List UChar}

theorem preempt_same : (u.preempt ep transType).epIn = u.epIn ∧
    (u.preempt ep transType).calls = u.calls ∧
    (u.preempt ep transType).firstDeviceDescr = u.firstDeviceDescr ∧
    (u.preempt ep transType).setup = u.setup ∧
    (u.preempt ep transType).setupData = u.setupData ∧
    (u.preempt ep transType).setupDataCnt = u.setupDataCnt := by
  rw [preempt]
  split
  · exact ⟨rfl, rfl, rfl, rfl, rfl, rfl⟩
  · exact ⟨rfl, rfl, rfl, rfl, rfl, rfl⟩

theorem fits_congr (same : u'.firstDeviceDescr = u.firstDeviceDescr)
    (fits : RequestFits d u setup) : RequestFits d u' setup := by
  rw [RequestFits] at fits ⊢
  split
  · rename_i device
    rw [device] at fits
    intro std
    have fits' := fits std
    rw [StdFits] at fits' ⊢
    split
    · rename_i get
      rw [get] at fits'
      rw [DescriptorFits] at fits' ⊢
      rw [same]
      exact fits'
    · rename_i set
      rw [set] at fits'
      exact fits'
    · trivial
  · rename_i iface
    rw [iface] at fits
    exact fits
  · rename_i endpoint
    rw [endpoint] at fits
    exact fits
  · trivial

theorem Sound.runAckHandler (sound : Sound d u) (dir : Dir) : Sound d (u.runAckHandler ep dir) := by
  rw [Usbdev.runAckHandler]
  split
  · rename_i addr _
    have called : Sound d (u.call (.setAddr addr)) := sound.call trivial
    exact called.congr rfl rfl
  · exact sound

theorem Sound.usbdevhalReset (sound : Sound d u) : Sound d (u.usbdevhalReset d) := by
  rw [Usbdev.usbdevhalReset]
  apply Sound.call
  · refine ⟨fun ep => ?_, sound.inside⟩
    show EpIn.Sound d (if ep < d.nbEndpoints then _ else _)
    split
    · exact ⟨(sound.transfers ep).rest, fun goes => by contradiction⟩
    · exact sound.transfers ep
  · trivial

theorem Sound.startHandler (sound : Sound d u) {pid : Nat} {size : Int} :
    Sound d (u.startIn ep pid (.handler size) size size outside) := by
  apply sound.startIn _ (.inr rfl)
  intro _ _
  rw [Source.size]
  split <;> omega

theorem Sound.usbdevhalInDone (sound : Sound d u) {size : Int}
    (packet : (u.epIn ep).state = .waitIn → 0 < (u.epIn ep).maxSize) :
    Sound d (u.usbdevhalInDone d ep size outside) := by
  have transfer := sound.transfers ep
  rw [Usbdev.usbdevhalInDone]
  split
  · rename_i goes
    apply Sound.doIn
    · exact sound.setIn ⟨transfer.rest, transfer.goes⟩
    · rw [setIn_self]
      exact transfer.goes goes (packet goes)
  · have stopped : Sound d (u.inState ep .nack) := sound.inState (by decide)
    simp only
    split
    · exact (stopped.setOut _).call trivial
    split
    · split
      · exact stopped.startHandler
      · exact (stopped.inState (by decide)).call trivial
      · exact stopped
    · exact stopped
  · have acked : Sound d ((u.outState ep .waitSetup).inState ep .nack) :=
      (sound.setOut _).inState (by decide)
    exact (acked.runAckHandler .out).call trivial
  · exact (sound.congr rfl rfl : Sound d { u with ctrlFailed := u.ctrlFailed + 1 }).call trivial

theorem usbdevhalInDone_sends {size : Int} (goes : (u.epIn ep).state = .waitIn) :
    Sends u ep (u.epIn ep).data (u.usbdevhalInDone d ep size outside) := by
  have sends := @doIn_sends (u.setIn ep { u.epIn ep with restAck := (u.epIn ep).restAck - size }) ep
  rw [setIn_self] at sends
  rw [usbdevhalInDone]
  split
  · exact ⟨sends.calls, sends.data⟩
  · rename_i last
    rw [goes] at last
    contradiction
  · rename_i ack
    rw [goes] at ack
    contradiction
  · rename_i other _ _
    exact absurd goes other

theorem Sound.takeSetup (sound : Sound d u)
    (fits : (Setup.ofBytes data).bmRequestType.toNat &&& 0x80 ≠ 0 ∨
      (Setup.ofBytes data).wLength = 0 → RequestFits d u (.ofBytes data)) :
    ∃ u', u.takeSetup d ep data outside = some u' ∧ Sound d u' ∧
      ((Setup.ofBytes data).bmRequestType.toNat &&& 0x80 ≠ 0 ∨
        (Setup.ofBytes data).wLength = 0 → Answers d u ep (.ofBytes data) u') := by
  rw [Usbdev.takeSetup]
  simp only
  split
  · rename_i whole
    obtain ⟨u', processed, answers⟩ := processSetup_answers sound (fits whole)
    exact ⟨u', processed, answers.sound, fun _ => answers⟩
  rename_i part
  split
  · refine ⟨_, rfl, Sound.call ?_ trivial, fun whole => absurd whole part⟩
    exact sound.congr rfl rfl
  · refine ⟨_, rfl, Sound.call ?_ trivial, fun whole => absurd whole part⟩
    exact sound.congr rfl rfl

theorem Sound.takeData (sound : Sound d u)
    (stores : data = [] ∨ u.setupDataCnt + data.length ≤ u.setupData.getD 0)
    (fits : u.setup.wLength.toNat ≤ u.setupDataCnt + data.length → RequestFits d u u.setup) :
    ∃ u', u.takeData d ep data outside = some u' ∧ Sound d u' ∧
      (u.setup.wLength.toNat ≤ u.setupDataCnt + data.length → Answers d u ep u.setup u') := by
  rw [Usbdev.takeData]
  have inside : ¬(data ≠ [] ∧ ¬u.setupDataCnt + data.length ≤ u.setupData.getD 0) := by
    rintro ⟨some, excess⟩
    rcases stores with none | inside
    · exact some none
    · exact excess inside
  rw [if_neg inside]
  simp only
  set u₁ : Usbdev := { u with setupDataCnt := u.setupDataCnt + data.length }
  have sound₁ : Sound d u₁ := sound.congr rfl rfl
  split
  · rename_i whole
    obtain ⟨u', processed, answers⟩ :=
      @processSetup_answers d u₁ ep u.setup outside sound₁ (fits_congr rfl (fits whole))
    rw [processed]
    exact ⟨_, rfl, answers.sound.congr rfl rfl,
      fun _ => ⟨answers.sound.congr rfl rfl, answers.calls, answers.data⟩⟩
  · rename_i part
    exact ⟨_, rfl, sound₁.call trivial, fun whole => absurd whole part⟩

theorem Sound.usbdevhalOutDone (sound : Sound d u)
    (fits : Fits d u (.outDone ep transType data outside)) :
    ∃ u', u.usbdevhalOutDone d ep transType data outside = some u' ∧ Sound d u' ∧
      ∀ setup, serves u (.outDone ep transType data outside) = some (ep, setup) →
        Answers d u ep setup u' := by
  obtain ⟨-, stores, requests⟩ := fits
  obtain ⟨epIn, calls, first, remembered, buffer, count⟩ := @preempt_same u ep transType
  rw [Usbdev.usbdevhalOutDone]
  simp only [serves] at requests ⊢
  set u₁ := u.preempt ep transType
  have sound₁ : Sound d u₁ := sound.congr epIn calls
  have other : ∀ u₂ : Usbdev, u₂.epIn = u₁.epIn → u₂.calls = u₁.calls → Sound d u₂ :=
    fun u₂ same same' => sound₁.congr same same'
  split
  · rename_i ready
    simp only [ready] at requests ⊢
    split
    · rename_i strange
      refine ⟨_, rfl, (other { u₁ with rxBadTrans := u₁.rxBadTrans + 1 } rfl rfl).call trivial, ?_⟩
      intro setup served
      rw [if_neg fun all => strange all.1] at served
      contradiction
    split
    · rename_i short
      refine ⟨_, rfl, (other { u₁ with rxBadLen := u₁.rxBadLen + 1 } rfl rfl).call trivial, ?_⟩
      intro setup served
      rw [if_neg fun all => short all.2.1] at served
      contradiction
    rename_i comes whole
    rw [not_not] at comes whole
    have all : ∀ request, (transType = .setup ∧ data.length = 8 ∧ request) ↔ request :=
      fun request => ⟨fun all => all.2.2, fun there => ⟨comes, whole, there⟩⟩
    simp only [all] at requests ⊢
    obtain ⟨u', taken, sound', answers⟩ := @Sound.takeSetup d u₁ ep outside data sound₁
      fun request => fits_congr first (requests _ (if_pos request))
    refine ⟨u', taken, sound', fun setup served => ?_⟩
    split at served
    · rename_i request
      obtain rfl := (Prod.mk.inj (Option.some.inj served)).2
      exact (answers request).congr calls
    · contradiction
  · rename_i ready
    simp only [ready] at requests ⊢
    split
    · rename_i strange
      set left := { u₁ with rxBadTrans := u₁.rxBadTrans + 1 }.outState ep .waitSetup
      refine ⟨_, rfl, (other left rfl rfl).call trivial, fun setup served => ?_⟩
      rw [if_neg fun all => strange all.1] at served
      contradiction
    rename_i comes
    rw [not_not] at comes
    have all : ∀ request, (transType = .out ∧ request) ↔ request :=
      fun request => ⟨fun all => all.2, fun there => ⟨comes, there⟩⟩
    simp only [all] at requests ⊢
    have stores' := stores ready comes
    rw [← count, ← buffer] at stores'
    rw [← count, ← remembered] at requests ⊢
    obtain ⟨u', taken, sound', answers⟩ := @Sound.takeData d u₁ ep outside data sound₁ stores'
      fun request => fits_congr first (requests _ (if_pos request))
    refine ⟨u', taken, sound', fun setup served => ?_⟩
    split at served
    · rename_i request
      obtain rfl := (Prod.mk.inj (Option.some.inj served)).2
      exact (answers request).congr calls
    · contradiction
  · rename_i ready
    simp only [ready]
    split
    · exact ⟨_, rfl, (other { u₁ with rxBadTrans := u₁.rxBadTrans + 1 } rfl rfl).call trivial,
        fun setup served => by contradiction⟩
    split
    · exact ⟨_, rfl, sound₁.call trivial, fun setup served => by contradiction⟩
    · exact ⟨_, rfl, sound₁.call trivial, fun setup served => by contradiction⟩
    · exact ⟨_, rfl, sound₁, fun setup served => by contradiction⟩
  · rename_i ready
    simp only [ready]
    exact ⟨_, rfl, ((sound₁.setOut _).runAckHandler .into).call trivial,
      fun setup served => by contradiction⟩
  · rename_i setup data out ack
    refine ⟨_, rfl, other _ rfl rfl, fun request served => ?_⟩
    split at served
    · exact absurd (by assumption) setup
    · exact absurd (by assumption) data
    · contradiction

theorem Sound.step (sound : Sound d u) {e : Event} (fits : Fits d u e) :
    ∃ u', step d u e = some u' ∧ Proper d u e u' := by
  cases e with
  | reset =>
    exact ⟨_, rfl, sound.usbdevhalReset, fun _ _ served => by contradiction,
      fun _ _ _ same => by contradiction⟩
  | outDone ep transType data outside =>
    obtain ⟨u', done, sound', answers⟩ := sound.usbdevhalOutDone fits
    refine ⟨u', (if_pos fits.1).trans done, sound', fun ep' setup served => ?_,
      fun _ _ _ same => by contradiction⟩
    have same : ep' = ep := by
      rw [serves] at served
      split at served
      · split at served
        · exact (Prod.mk.inj (Option.some.inj served)).1.symm
        · contradiction
      · split at served
        · exact (Prod.mk.inj (Option.some.inj served)).1.symm
        · contradiction
      · contradiction
    subst same
    exact answers setup served
  | inDone ep size outside =>
    refine ⟨_, if_pos fits.1, sound.usbdevhalInDone fits.2, fun _ _ served => by contradiction,
      fun ep' size' outside' same goes => ?_⟩
    obtain ⟨rfl, rfl, rfl⟩ := Event.inDone.inj same
    exact usbdevhalInDone_sends goes
  | ackIn ep size outside =>
    have started : ∀ u', Sound d u' → Proper d u (.ackIn ep size outside) u' := fun u' sound' =>
      ⟨sound', fun _ _ served => by contradiction, fun _ _ _ same => by contradiction⟩
    rw [Usb.step, if_pos (show ep < d.nbEndpoints from fits)]
    split
    · exact ⟨_, rfl, started _ sound.startHandler⟩
    · exact ⟨_, rfl, started _ sound⟩

theorem sound_usbdevInit : Sound d (usbdevInit d) where
  transfers ep := ⟨fun _ => ⟨le_rfl, le_rfl⟩, fun goes => by contradiction⟩
  inside c none := absurd none List.not_mem_nil

end Usbdev

def Meets (d : Device) : Usbdev → List Event → Prop
  | _, [] => True
  | u, e :: events => Fits d u e ∧ ∀ u', step d u e = some u' → Meets d u' events

def Stays (d : Device) : Usbdev → List Event → Prop
  | _, [] => True
  | u, e :: events => ∃ u', step d u e = some u' ∧ Proper d u e u' ∧ Stays d u' events

theorem stays_of_meets {d : Device} {u : Usbdev} {events : List Event} (sound : u.Sound d)
    (meets : Meets d u events) : Stays d u events := by
  induction events generalizing u with
  | nil => trivial
  | cons e events ih =>
    obtain ⟨u', done, proper⟩ := sound.step meets.1
    exact ⟨u', done, proper, ih proper.sound (meets.2 u' done)⟩

/-- Control requests stay inside of what was registered, in every run whose events do not reach
one of the accesses that the stack does not check. -/
theorem control_requests_stay_inside {d : Device} {events : List Event}
    (meets : Meets d (usbdevInit d) events) : Stays d (usbdevInit d) events :=
  stays_of_meets sound_usbdevInit meets

def bareConf : ConfDesc where
  bytes := [9, 2, 18, 0, 0, 1, 0, 0x80, 50, 9, 4, 0, 0, 0, 0xff, 0, 0, 0]
  header := by decide
  total := by decide

/-- A device with one configuration, one string and one interface. -/
def bareDevice (ep0MaxSize : Nat) : Device where
  ep0MaxSize := ep0MaxSize
  nbEndpoints := 5
  control := by decide
  resetDescr := 1
  qualifDesc := none
  confDesc := [bareConf]
  strings := [⟨[4, 3, 9, 4], by decide, by decide⟩]
  ifaceCtrl := [true]
  devHandler := false
  outHandler _ := false
  inHandler _ := false

/-- Code outside of the stack that has room for a packet, memory and no data. -/
def ready : Outside where
  room := [true]
  reply := .nack
  size := 0
  memory := true

def request (bytes : List UChar) : Event :=
  .outDone 0 .setup bytes ready

/-- A bus reset and a request for the configuration. -/
theorem control_requests_stay_inside_conf :
    Stays (bareDevice 8) (usbdevInit (bareDevice 8))
      [.reset, request [0x80, 6, 0, 2, 0, 0, 9, 0]] := by
  apply control_requests_stay_inside
  refine ⟨trivial, fun u₁ same => ⟨⟨by decide, fun data => ?_, fun setup served => ?_⟩,
    fun _ _ => trivial⟩⟩
  · cases same
    contradiction
  · cases same
    obtain rfl := (Prod.mk.inj (Option.some.inj served)).2
    intro _
    show 0 < 1
    decide

/-- A request for the second of one configurations, one for the second of one strings, a return to
the unconfigured state and a packet longer than the data of its request all leave the arrays, and
the first request for the device descriptor sends more than it has where packets are long. -/
theorem requests_outside :
    ¬Stays (bareDevice 8) (usbdevInit (bareDevice 8))
        [.reset, request [0x80, 6, 1, 2, 0, 0, 9, 0]] ∧
      ¬Stays (bareDevice 8) (usbdevInit (bareDevice 8))
        [.reset, request [0x80, 6, 1, 3, 0, 0, 4, 0]] ∧
      ¬Stays (bareDevice 8) (usbdevInit (bareDevice 8))
        [.reset, request [0, 9, 0, 0, 0, 0, 0, 0]] ∧
      ¬Stays (bareDevice 8) (usbdevInit (bareDevice 8))
        [.reset, request [0x21, 9, 0, 0, 0, 0, 2, 0], .outDone 0 .out (.replicate 8 0) ready] ∧
      ¬Stays (bareDevice 64) (usbdevInit (bareDevice 64))
        [.reset, request [0x80, 6, 0, 1, 0, 0, 64, 0]] := by
  refine ⟨?_, ?_, ?_, ?_, ?_⟩
  · rintro ⟨u₁, same, -, u₂, fails, -⟩
    cases same
    contradiction
  · rintro ⟨u₁, same, -, u₂, fails, -⟩
    cases same
    contradiction
  · rintro ⟨u₁, same, -, u₂, fails, -⟩
    cases same
    contradiction
  · rintro ⟨u₁, same, -, u₂, same', -, u₃, fails, -⟩
    cases same
    cases same'
    contradiction
  · rintro ⟨u₁, same, -, u₂, same', proper, -⟩
    cases same
    cases same'
    have sent := proper.sound.inside (.epWaitIn 0 0xb .devDesc 0 64 true) (by
      exact List.mem_append_right _ List.mem_cons_self)
    exact absurd sent.2.2 (by decide)

end Uos.Usb
