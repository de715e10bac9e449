import Uos.Usb.Transfers

/-!
# Requests

What a request asks for, which requests stay in the arrays, and how the stack answers those.
-/

namespace Uos.Usb

open List Option

def readEpDescs (bytes : List UChar) : Nat → Nat → Option (List EpDesc)
  | 0, _ => some []
  | left + 1, pos => do
    let pep ← readEpDesc bytes pos
    let rest ← readEpDescs bytes left (pos + 7)
    some (pep :: rest)

/-- The endpoints of the first interface of a configuration. -/
def endpointsOf (bytes : List UChar) : Option (List EpDesc) := do
  let number ← bytes[9 + 4]?
  if number ≠ 0 then do
    let pos ← skipToEndpoint bytes (bytes.length + 1) (9 + 9)
    readEpDescs bytes number.toNat pos
  else some []

/-- A configuration is there, and its endpoints are in its descriptor and in the arrays. -/
def ConfFits (d : Device) (confNum : Nat) : Prop :=
  0 < confNum ∧ ∃ conf, d.confDesc[confNum - 1]? = some conf ∧
    ∃ endpoints, endpointsOf conf.bytes = some endpoints ∧
      ∀ pep ∈ endpoints, pep.bEndpointAddress.toNat &&& 0x7f < d.nbEndpoints

/-- `USB_SR_GET_DESCRIPTOR` to the device. -/
abbrev Setup.GetDescriptor (setup : Setup) : Prop :=
  setup.rcv = 0 ∧ setup.type = 0 ∧ setup.bRequest.toNat = 6

def Setup.asked (setup : Setup) : Option Source :=
  if setup.GetDescriptor then
    match setup.descType with
    | 1 => some .devDesc
    | 6 => some .qualifDesc
    | 2 => some (.confDesc setup.descIndex)
    | 3 => some (.string setup.descIndex)
    | _ => none
  else none

/-- A request is for a descriptor that does not exist. -/
def Setup.NoDescriptor (d : Device) (setup : Setup) : Prop :=
  match setup.descType with
  | 1 => False
  | 6 => d.qualifDesc = none
  | 2 => d.confDesc.length ≤ setup.descIndex
  | 3 => d.strings.length ≤ setup.descIndex
  | _ => True

/-- A request is for a descriptor, a configuration, an interface or an endpoint that does not
exist. -/
def Setup.Missing (d : Device) (setup : Setup) : Prop :=
  match setup.rcv with
  | 0 =>
    setup.type = 0 ∧
      (setup.bRequest.toNat = 6 ∧ setup.NoDescriptor d ∨
        setup.bRequest.toNat = 9 ∧ d.confDesc.length < setup.wValue.toNat)
  | 1 => d.ifaceCtrl.length ≤ setup.wIndex.toNat &&& 0xff
  | 2 => d.nbEndpoints ≤ setup.wIndex.toNat &&& 0xf
  | _ => False

/-- A request for a descriptor stays in the table and in the descriptor. -/
def DescriptorFits (d : Device) (u : Usbdev) (setup : Setup) : Prop :=
  match setup.descType with
  | 1 => u.firstDeviceDescr ≠ 0 → min setup.wLength.toNat d.ep0MaxSize ≤ 18
  | 2 => setup.descIndex < d.confDesc.length
  | 3 => setup.descIndex < d.strings.length
  | _ => True

/-- A standard request to the device stays in the arrays. -/
def StdFits (d : Device) (u : Usbdev) (setup : Setup) : Prop :=
  match setup.bRequest.toNat with
  | 6 => DescriptorFits d u setup
  | 9 => setup.wValue.toNat ≤ d.confDesc.length → ConfFits d setup.wValue.toNat
  | _ => True

/-- A request stays in the arrays, or is refused. -/
def RequestFits (d : Device) (u : Usbdev) (setup : Setup) : Prop :=
  match setup.rcv with
  | 0 => setup.type = 0 → StdFits d u setup
  | 1 => setup.wIndex.toNat &&& 0xff < d.ifaceCtrl.length
  | 2 => setup.wIndex.toNat &&& 0xf < d.nbEndpoints
  | _ => True

namespace Usbdev

variable {d : Device} {u u' u'' : Usbdev} {ep : Nat} {setup : Setup} {outside : Outside}

/-- A request is answered as it should. -/
structure Answers (d : Device) (u : Usbdev) (ep : Nat) (setup : Setup) (u' : Usbdev) : Prop where
  sound : Sound d u'
  calls : ∃ more, u'.calls = u.calls ++ more ∧ (setup.Missing d → .epStall ep .into ∈ more) ∧
    ∀ source, setup.asked = some source → ∀ c ∈ more, c.From source
  data : ∀ source, setup.asked = some source → ¬setup.Missing d → (u'.epIn ep).data = source

theorem Sound.setEndpoint (sound : Sound d u) {pep : EpDesc}
    (inside : pep.bEndpointAddress.toNat &&& 0x7f < d.nbEndpoints) :
    ∃ u', u.setEndpoint d pep = some u' ∧ Sound d u' ∧ ∃ more, u'.calls = u.calls ++ more := by
  rw [Usbdev.setEndpoint, if_pos inside]
  split
  · exact ⟨_, rfl, (sound.setOut _).call trivial, [_], rfl⟩
  · refine ⟨_, rfl, (sound.setIn ⟨?_, fun goes => by contradiction⟩).call trivial, [_], rfl⟩
    exact (sound.transfers _).rest

theorem Sound.setEndpoints (sound : Sound d u) {bytes : List UChar} {left pos : Nat}
    {endpoints : List EpDesc} (reads : readEpDescs bytes left pos = some endpoints)
    (inside : ∀ pep ∈ endpoints, pep.bEndpointAddress.toNat &&& 0x7f < d.nbEndpoints) :
    ∃ u', u.setEndpoints d bytes left pos = some u' ∧ Sound d u' ∧
      ∃ more, u'.calls = u.calls ++ more := by
  induction left generalizing u pos endpoints with
  | zero => exact ⟨u, rfl, sound, [], (append_nil _).symm⟩
  | succ left ih =>
    obtain ⟨pep, first, later⟩ := bind_eq_some_iff.mp reads
    obtain ⟨rest, reads', same⟩ := bind_eq_some_iff.mp later
    obtain rfl : pep :: rest = endpoints := Option.some.inj same
    obtain ⟨u₁, sets, sound₁, more, calls⟩ := sound.setEndpoint (inside pep mem_cons_self)
    obtain ⟨u₂, sets', sound₂, more', calls'⟩ :=
      ih sound₁ reads' fun pep member => inside pep (mem_cons_of_mem _ member)
    refine ⟨u₂, ?_, sound₂, more ++ more', ?_⟩
    · rw [Usbdev.setEndpoints, first]
      show (u.setEndpoint d pep).bind _ = _
      rw [sets]
      exact sets'
    · rw [calls', calls, append_assoc]

theorem Sound.setInterface (sound : Sound d u) {bytes : List UChar} {endpoints : List EpDesc}
    (reads : endpointsOf bytes = some endpoints)
    (inside : ∀ pep ∈ endpoints, pep.bEndpointAddress.toNat &&& 0x7f < d.nbEndpoints) :
    ∃ u', u.setInterface d bytes = some u' ∧ Sound d u' ∧
      ∃ more, u'.calls = u.calls ++ more := by
  obtain ⟨number, counted, rest⟩ := bind_eq_some_iff.mp reads
  rw [Usbdev.setInterface, counted]
  show ∃ u', (if number ≠ 0 then _ else _) = some u' ∧ _
  split
  · rename_i many
    rw [if_pos many] at rest
    obtain ⟨pos, skips, reads'⟩ := bind_eq_some_iff.mp rest
    rw [skips]
    exact sound.setEndpoints reads' inside
  · exact ⟨u, rfl, sound, [], (append_nil _).symm⟩

/-- `set_configuration` of a configuration that fits. -/
theorem Sound.setConfiguration (sound : Sound d u) {confNum : Nat} (fits : ConfFits d confNum) :
    ∃ u', u.setConfiguration d confNum = some u' ∧ Sound d u' ∧
      ∃ more, u'.calls = u.calls ++ more := by
  obtain ⟨positive, conf, here, endpoints, reads, inside⟩ := fits
  cases confNum with
  | zero => omega
  | succ n =>
    rw [Nat.add_sub_cancel] at here
    obtain ⟨u', sets, sound', calls⟩ := sound.setInterface reads inside
    refine ⟨{ u' with curConf := n + 1 }, ?_, sound'.congr rfl rfl, calls⟩
    rw [Usbdev.setConfiguration, here]
    show (u.setInterface d conf.bytes).bind _ = _
    rw [sets]
    rfl

theorem startIn_answers (sound : Sound d u) {source : Source} {reqSize realSize : Int}
    (inside : 0 ≤ reqSize → 0 ≤ realSize →
      (if reqSize < realSize then reqSize else realSize) ≤ source.size d)
    (request : 0 ≤ reqSize ∨ reqSize = realSize) (there : ¬setup.Missing d)
    (asked : ∀ other, setup.asked = some other → source = other) :
    Answers d u ep setup (u.startIn ep 0xb source reqSize realSize outside) := by
  obtain ⟨⟨more, calls, sources⟩, data⟩ :=
    @startIn_sends u ep 0xb source reqSize realSize outside
  refine ⟨sound.startIn inside request, ⟨more, calls, fun missing => absurd missing there, ?_⟩,
    fun other same _ => data.trans (asked other same)⟩
  intro other same
  rw [← asked other same]
  exact sources

theorem stall_answers (sound : Sound d u)
    (missing : ∀ source, setup.asked = some source → setup.Missing d) :
    Answers d u ep setup (u.call (.epStall ep .into)) where
  sound := sound.call trivial
  calls := by
    refine ⟨[.epStall ep .into], rfl, fun _ => mem_singleton.mpr rfl, ?_⟩
    intro source _ c member
    obtain rfl := mem_singleton.mp member
    trivial
  data source asked there := absurd (missing source asked) there

theorem Answers.congr (answers : Answers d u ep setup u') (before : u.calls = u''.calls) :
    Answers d u'' ep setup u' where
  sound := answers.sound
  calls := by
    rw [← before]
    exact answers.calls
  data := answers.data

theorem missing_descriptor (get : setup.GetDescriptor) :
    setup.Missing d ↔ setup.NoDescriptor d := by
  rw [Setup.Missing, get.1]
  simp [get.2.1, get.2.2]

/-- The answer to `USB_SR_GET_DESCRIPTOR`. -/
theorem getDescriptor_answers (sound : Sound d u) (get : setup.GetDescriptor)
    (fits : DescriptorFits d u setup) :
    ∃ u', u.getDescriptor d ep setup outside = some u' ∧ Answers d u ep setup u' := by
  have missing := @missing_descriptor d setup get
  rw [Setup.NoDescriptor] at missing
  have asked : setup.asked = _ := if_pos get
  rw [DescriptorFits] at fits
  rw [getDescriptor]
  split
  · rename_i device
    rw [device] at missing asked fits
    have there : ¬setup.Missing d := fun absent => missing.mp absent
    have only : ∀ other, setup.asked = some other → Source.devDesc = other := by
      intro other same
      exact Option.some.inj (asked.symm.trans same)
    split
    · rename_i first
      have most := fits first
      refine ⟨_, rfl, ?_⟩
      have answers := @startIn_answers d u ep setup outside sound .devDesc
        (if setup.wLength.toNat < d.ep0MaxSize then setup.wLength.toNat else d.ep0MaxSize : Nat)
        (if setup.wLength.toNat < d.ep0MaxSize then setup.wLength.toNat else d.ep0MaxSize : Nat)
        (by intro _ _; rw [Source.size]; split <;> split <;> omega) (.inr rfl) there only
      exact ⟨answers.sound.congr rfl rfl, answers.calls, answers.data⟩
    · exact ⟨_, rfl, startIn_answers sound (by intro _ _; rw [Source.size]; split <;> omega)
        (.inl (Int.natCast_nonneg _)) there only⟩
  · rename_i qualifier
    rw [qualifier] at missing asked
    split
    · rename_i qualif here
      have there : ¬setup.Missing d := by
        intro absent
        have gone : d.qualifDesc = none := missing.mp absent
        rw [gone] at here
        contradiction
      refine ⟨_, rfl, startIn_answers sound ?_ (.inl (Int.natCast_nonneg _)) there fun other same =>
        Option.some.inj (asked.symm.trans same)⟩
      intro _ _
      rw [Source.size, here, map_some, getD_some, qualif.length]
      split <;> omega
    · rename_i gone
      exact ⟨_, rfl, stall_answers sound fun _ _ => missing.mpr gone⟩
  · rename_i config
    rw [config] at missing asked fits
    have fits' : setup.descIndex < d.confDesc.length := fits
    have there : ¬setup.Missing d := fun absent => absurd (missing.mp absent) (not_le.mpr fits')
    simp only [ge_iff_le, if_neg (not_le.mpr fits'), List.getElem?_eq_getElem fits']
    refine ⟨_, rfl, startIn_answers sound ?_ (.inl (Int.natCast_nonneg _)) there fun other same =>
      Option.some.inj (asked.symm.trans same)⟩
    intro _ _
    rw [Source.size, List.getElem?_eq_getElem fits', map_some, getD_some,
      ConfDesc.total]
    split <;> omega
  · rename_i string
    rw [string] at missing asked fits
    have fits' : setup.descIndex < d.strings.length := fits
    have there : ¬setup.Missing d := fun absent => absurd (missing.mp absent) (not_le.mpr fits')
    rw [List.getElem?_eq_getElem fits']
    refine ⟨_, rfl, startIn_answers sound ?_ (.inl (Int.natCast_nonneg _)) there fun other same =>
      Option.some.inj (asked.symm.trans same)⟩
    intro _ _
    rw [Source.size, List.getElem?_eq_getElem fits', map_some, getD_some,
      Descriptor.length]
    split <;> omega
  · rename_i device qualifier config string
    refine ⟨_, rfl, stall_answers sound fun _ _ => missing.mpr ?_⟩
    split
    · exact absurd (by assumption) device
    · exact absurd (by assumption) qualifier
    · exact absurd (by assumption) config
    · exact absurd (by assumption) string
    · trivial

theorem Answers.after (answers : Answers d u' ep setup u'') {more : List Call}
    (calls : u'.calls = u.calls ++ more) (silent : setup.asked = none) :
    Answers d u ep setup u'' where
  sound := answers.sound
  calls := by
    obtain ⟨rest, later, stalls, -⟩ := answers.calls
    refine ⟨more ++ rest, ?_, fun missing => mem_append_right _ (stalls missing), ?_⟩
    · rw [later, calls, append_assoc]
    · intro source asked
      rw [silent] at asked
      contradiction
  data := answers.data

theorem asked_none (other : setup.bRequest.toNat ≠ 6) : setup.asked = none :=
  if_neg fun get => other get.2.2

theorem present_of_std (device : setup.rcv = 0) (other : setup.bRequest.toNat ≠ 6)
    (fits : setup.bRequest.toNat = 9 → setup.wValue.toNat ≤ d.confDesc.length) :
    ¬setup.Missing d := by
  rw [Setup.Missing, device]
  rintro ⟨-, ⟨get, -⟩ | ⟨set, excess⟩⟩
  · exact other get
  · exact absurd (fits set) (not_le.mpr excess)

theorem startIn_answers_std (sound : Sound d u) {source : Source} {reqSize : Nat} {realSize : Int}
    (device : setup.rcv = 0) (other : setup.bRequest.toNat ≠ 6)
    (fits : setup.bRequest.toNat = 9 → setup.wValue.toNat ≤ d.confDesc.length)
    (size : realSize = source.size d) :
    Answers d u ep setup (u.startIn ep 0xb source reqSize realSize outside) := by
  apply startIn_answers sound _ (.inl (Int.natCast_nonneg _)) (present_of_std device other fits)
  · intro asked same
    rw [asked_none other] at same
    contradiction
  · intro _ _
    split <;> omega

theorem processStdReq_answers (sound : Sound d u) (device : setup.rcv = 0)
    (std : setup.type = 0) (fits : StdFits d u setup) :
    ∃ u', u.processStdReq d ep setup outside = some u' ∧ Answers d u ep setup u' := by
  rw [StdFits] at fits
  rw [processStdReq]
  have refused : ∀ u₁ : Usbdev, Sound d u₁ → setup.bRequest.toNat ≠ 6 →
      Answers d u₁ ep setup (u₁.call (.epStall ep .into)) := by
    intro u₁ sound₁ other
    apply stall_answers sound₁
    intro source asked
    rw [asked_none other] at asked
    contradiction
  split
  · rename_i status
    exact ⟨_, rfl, startIn_answers_std sound device (by omega) (by omega) rfl⟩
  · rename_i address
    set u₁ : Usbdev := { u with usbAddr := setup.wValue.toNat }.setAckHandler ep .out
      (some (.setAddress setup.wValue.toNat))
    have sound₁ : Sound d u₁ := sound.congr rfl rfl
    have answers := @startIn_answers_std d u₁ ep setup outside sound₁ .null 0 0 device (by omega)
      (by omega) rfl
    exact ⟨_, rfl, answers.sound.congr rfl rfl, answers.calls, answers.data⟩
  · rename_i get
    rw [get] at fits
    exact getDescriptor_answers sound ⟨device, std, get⟩ fits
  · rename_i configuration
    split
    · exact ⟨_, rfl, (refused { u with rxBadReq := u.rxBadReq + 1 } (sound.congr rfl rfl)
        (by omega)).congr rfl⟩
    · exact ⟨_, rfl, startIn_answers_std sound device (by omega) (by omega) rfl⟩
  · rename_i set
    rw [set] at fits
    split
    · exact ⟨_, rfl, (refused { u with rxBadReq := u.rxBadReq + 1 } (sound.congr rfl rfl)
        (by omega)).congr rfl⟩
    · rename_i here
      obtain ⟨u₁, sets, sound₁, more, calls⟩ := sound.setConfiguration (fits (not_lt.mp here))
      rw [sets]
      exact ⟨_, rfl, (startIn_answers_std sound₁ device (by omega) (fun _ => not_lt.mp here)
        rfl).after calls (asked_none (by omega))⟩
  · rename_i status address get configuration set
    exact ⟨_, rfl, startIn_answers_std sound device get (fun same => absurd same set) rfl⟩

theorem finishReq_answers (sound : Sound d u) (reply : Reply) (there : ¬setup.Missing d)
    (silent : setup.asked = none) :
    Answers d u ep setup (u.finishReq ep setup reply outside) := by
  cases reply with
  | ack =>
    apply startIn_answers sound _ (.inl _) there
    · intro source asked
      rw [silent] at asked
      contradiction
    · intro _ _
      rw [Source.size]
      split <;> omega
    · split
      · exact Int.natCast_nonneg _
      · exact le_rfl
  | nack =>
    refine ⟨sound, ⟨[], (append_nil _).symm, fun missing => absurd missing there, ?_⟩, ?_⟩
    · exact fun source _ c none => absurd none not_mem_nil
    · intro source asked
      rw [silent] at asked
      contradiction
  | stall =>
    have answers := @stall_answers d u ep setup sound (by
      intro source asked
      rw [silent] at asked
      contradiction)
    exact ⟨answers.sound.setOut _, answers.calls, answers.data⟩

theorem processSetup_answers (sound : Sound d u) (fits : RequestFits d u setup) :
    ∃ u', u.processSetup d ep setup outside = some u' ∧ Answers d u ep setup u' := by
  set u₁ : Usbdev := { u with rxReq := u.rxReq + 1 }
  have sound₁ : Sound d u₁ := sound.congr rfl rfl
  have elsewhere : setup.rcv ≠ 0 → setup.asked = none := fun other =>
    if_neg fun get => other get.1
  rw [RequestFits] at fits
  rw [processSetup]
  split
  · rename_i device
    rw [device] at fits
    split
    · rename_i std
      obtain ⟨u', processed, answers⟩ :=
        @processStdReq_answers d u₁ ep setup outside sound₁ device std (fits std)
      exact ⟨u', processed, answers.congr rfl⟩
    · rename_i special
      have there : ¬setup.Missing d := by
        rw [Setup.Missing, device]
        exact fun absent => special absent.1
      have silent : setup.asked = none := if_neg fun get => special get.2.1
      exact ⟨_, rfl, (finishReq_answers sound₁ _ there silent).congr rfl⟩
  · rename_i iface
    rw [iface] at fits
    have fits' : setup.wIndex.toNat &&& 0xff < d.ifaceCtrl.length := fits
    have there : ¬setup.Missing d := by
      rw [Setup.Missing, iface]
      exact not_le.mpr fits'
    simp only [ge_iff_le, if_neg (not_le.mpr fits'), List.getElem?_eq_getElem fits']
    exact ⟨_, rfl, (finishReq_answers sound₁ _ there (elsewhere (by omega))).congr rfl⟩
  · rename_i endpoint
    rw [endpoint] at fits
    have fits' : setup.wIndex.toNat &&& 0xf < d.nbEndpoints := fits
    have there : ¬setup.Missing d := by
      rw [Setup.Missing, endpoint]
      exact not_le.mpr fits'
    simp only [ge_iff_le, if_neg (not_le.mpr fits')]
    have silent := elsewhere (by omega)
    split
    · exact ⟨_, rfl, (finishReq_answers sound₁ _ there silent).congr rfl⟩
    · exact ⟨_, rfl, (finishReq_answers sound₁ _ there silent).congr rfl⟩
  · rename_i device iface endpoint
    have there : ¬setup.Missing d := by
      rw [Setup.Missing]
      split
      · exact absurd (by assumption) device
      · exact absurd (by assumption) iface
      · exact absurd (by assumption) endpoint
      · exact id
    have answers := @finishReq_answers d u₁ ep setup outside sound₁ .nack there (elsewhere device)
    exact ⟨_, rfl, answers.congr rfl⟩

end Usbdev
end Uos.Usb
