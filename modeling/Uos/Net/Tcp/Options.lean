import Uos.Library.Turns
import Uos.Net.Tcp.Connection

/-!
# The options of a segment

`tcp_parseopt` is right about a header as long as the lengths of the options do not lead its cursor
astray.
-/

namespace Uos

open Option BitVec

open Relation

def TcpHdr.optionSize (h : TcpHdr) : Nat :=
  (h.offset.toNat / 16 - 5) * 4

/-- An MSS option with the right length. -/
abbrev MssOption (opts : Nat → UChar) (c : Nat) : Prop :=
  opts c = 2 ∧ opts (c + 1) = 4

/-- From one place in the options to the next, past a NOP or another option that is well formed: it
has at least its kind and length, and ends inside the header. -/
def Skips (opts : Nat → UChar) (size c d : Nat) : Prop :=
  c < size ∧ opts c = 1 ∧ d = c + 1 ∨
    opts c ≠ 0 ∧ opts c ≠ 1 ∧ ¬MssOption opts c ∧ 2 ≤ (opts (c + 1)).toNat ∧ d ≤ size ∧
      d = c + (opts (c + 1)).toNat

/-- The first MSS option that is reached past NOPs and well-formed options, and its value. -/
def OffersMss (opts : Nat → UChar) (size : Nat) (mss : UShort) : Prop :=
  ∃ c, ReflTransGen (Skips opts size) 0 c ∧ MssOption opts c ∧ c + 4 ≤ size ∧
    mss = .ofBytes (opts (c + 2)) (opts (c + 3))

namespace Ip

/-- A turn of the loop of `tcp_parseopt`. -/
def parseTurn (opts : Nat → UChar) (size : Nat) (c : UChar) : UChar ⊕ Option UShort :=
  if c.toNat < size then
    if opts c.toNat = 0 then .inr none
    else if opts c.toNat = 1 then .inl (c + 1)
    else if MssOption opts c.toNat then
      .inr (some (.ofBytes (opts (c.toNat + 2)) (opts (c.toNat + 3))))
    else if opts (c.toNat + 1) = 0 then .inr none
    else .inl (c + opts (c.toNat + 1))
  else .inr none

def parseReads (opts : Nat → UChar) (size : Nat) (c : UChar) : List Nat :=
  if c.toNat < size then
    if opts c.toNat = 0 ∨ opts c.toNat = 1 then [c.toNat]
    else if MssOption opts c.toNat then [c.toNat, c.toNat + 1, c.toNat + 2, c.toNat + 3]
    else [c.toNat, c.toNat + 1]
  else []

instance : Finite UChar :=
  .of_injective BitVec.toFin fun _ _ same => BitVec.eq_of_toFin_eq same

variable {opts : Nat → UChar} {size turns : Nat} {c d : UChar} {mss : UShort}

theorem parseLoop_turns (opts : Nat → UChar) (size turns : Nat) (c : UChar) :
    parseLoop opts size turns c = loopTurns (parseTurn opts size) turns c := by
  induction turns generalizing c with
  | zero => rfl
  | succ turns ih =>
    simp only [parseLoop, loopTurns, parseTurn]
    split_ifs
    · rfl
    · exact ih _
    · rfl
    · rfl
    · exact ih _
    · rfl

/-- The offsets of the option bytes that `tcp_parseopt` reads, with a bound on its turns. -/
def tcpParseoptReads (turns : Nat) (h : TcpHdr) : List Nat :=
  if 0x50 < h.offset &&& 0xf0 then
    loopTrace (parseTurn h.opts h.optionSize) (parseReads h.opts h.optionSize) turns 0
  else []

/-- `tcp_parseopt` ends, stays inside the header, and takes the size that the peer offers, if
any. -/
structure ParsesRight (h : TcpHdr) : Prop where
  ends : ∃ turns, ∀ ip s, (tcpParseopt turns ip s h).isSome = true
  inside : ∀ turns, ∀ i ∈ tcpParseoptReads turns h, i < h.optionSize
  takes : ∀ {turns ip s ip'}, tcpParseopt turns ip s h = some ip' →
    ∀ mss, OffersMss h.opts h.optionSize mss →
      (ip'.tcpSocket s).mss = if tcpMss < mss then tcpMss else mss
  keeps : ∀ {turns ip s ip'}, tcpParseopt turns ip s h = some ip' →
    (∀ mss, ¬OffersMss h.opts h.optionSize mss) → (ip'.tcpSocket s).mss = (ip.tcpSocket s).mss

/-- The places that the cursor comes to, going from option to option by the length bytes, in the
arithmetic of a byte. -/
abbrev Visits (opts : Nat → UChar) (size : Nat) : UChar → Prop :=
  Passes (parseTurn opts size) 0

/-- The lengths of the options keep the cursor on its way: it never comes back to a place, no option
begins with the last byte, and an MSS option that it comes to is one that the peer offers. -/
structure Orderly (opts : Nat → UChar) (size : Nat) : Prop where
  onward : ∀ c, Visits opts size c → ¬TransGen (Leads (parseTurn opts size)) c c
  lengths : ∀ c, Visits opts size c → c.toNat + 1 = size → opts c.toNat = 0 ∨ opts c.toNat = 1
  offered : ∀ c, Visits opts size c → c.toNat < size → MssOption opts c.toNat →
    ReflTransGen (Skips opts size) 0 c.toNat ∧ c.toNat + 4 ≤ size

theorem parseTurn_cases (opts : Nat → UChar) (size : Nat) (c : UChar) :
    parseTurn opts size c = .inr none ∧ ¬(c.toNat < size ∧ MssOption opts c.toNat) ∨
      parseTurn opts size c = .inr (some (.ofBytes (opts (c.toNat + 2)) (opts (c.toNat + 3)))) ∧
        c.toNat < size ∧ MssOption opts c.toNat ∨
      ∃ d, parseTurn opts size c = .inl d ∧ ¬MssOption opts c.toNat := by
  rw [parseTurn]
  split_ifs with inside ends nop offers stuck
  · refine .inl ⟨rfl, fun ⟨_, kind, _⟩ => ?_⟩
    rw [ends] at kind
    contradiction
  · refine .inr (.inr ⟨_, rfl, fun ⟨kind, _⟩ => ?_⟩)
    rw [nop] at kind
    contradiction
  · exact .inr (.inl ⟨rfl, inside, offers⟩)
  · exact .inl ⟨rfl, fun ⟨_, offers'⟩ => offers offers'⟩
  · exact .inr (.inr ⟨_, rfl, offers⟩)
  · exact .inl ⟨rfl, fun ⟨inside', _⟩ => inside inside'⟩

theorem parseTurn_mss (inside : c.toNat < size) (option : MssOption opts c.toNat) :
    parseTurn opts size c =
      .inr (some (.ofBytes (opts (c.toNat + 2)) (opts (c.toNat + 3)))) := by
  rcases parseTurn_cases opts size c with ⟨-, not⟩ | ⟨own, -⟩ | ⟨d, -, not⟩
  · exact absurd ⟨inside, option⟩ not
  · exact own
  · exact absurd option not

theorem skips_leads {c d : Nat} (skips : Skips opts size c d) (short : size < 256) :
    Leads (parseTurn opts size) (.ofNat 8 c) (.ofNat 8 d) := by
  have inside : c < size := by
    rcases skips with ⟨inside, -⟩ | ⟨-, -, -, atLeast, within, rfl⟩
    · exact inside
    · omega
  have same : (BitVec.ofNat 8 c).toNat = c := by
    rw [toNat_ofNat]
    exact Nat.mod_eq_of_lt (inside.trans short)
  rw [Leads, parseTurn, same, if_pos inside]
  rcases skips with ⟨-, nop, rfl⟩ | ⟨more, other, noMss, atLeast, -, rfl⟩
  · rw [if_neg (by rw [nop]; decide), if_pos nop, ofNat_add]
    rfl
  · have some : opts (c + 1) ≠ 0 := by
      intro zero
      rw [zero] at atLeast
      contradiction
    rw [if_neg more, if_neg other, if_neg noMss, if_neg some, ofNat_add,
      ofNat_toNat, setWidth_eq]

theorem skips_visits {c : Nat} (reaches : ReflTransGen (Skips opts size) 0 c)
    (short : size < 256) : Visits opts size (.ofNat 8 c) :=
  reaches.lift (BitVec.ofNat 8) fun _ _ skips => skips_leads skips short

theorem loopTurns_offers (ends : loopTurns (parseTurn opts size) turns 0 = some (some mss)) :
    ∃ c, Visits opts size c ∧ c.toNat < size ∧ MssOption opts c.toNat ∧
      mss = .ofBytes (opts (c.toNat + 2)) (opts (c.toNat + 3)) := by
  obtain ⟨c, visits, stops⟩ := loopTurns_passes ends
  rcases parseTurn_cases opts size c with ⟨none, -⟩ | ⟨own, inside, offers⟩ | ⟨d, goesOn, -⟩
  · cases stops.symm.trans none
  · cases stops.symm.trans own
    exact ⟨c, visits, inside, offers, rfl⟩
  · cases stops.symm.trans goesOn

theorem offersMss_found {result : Option UShort} (offers : OffersMss opts size mss)
    (short : size < 256) (ends : loopTurns (parseTurn opts size) turns 0 = some result) :
    result = some mss := by
  obtain ⟨c, reaches, option, within, rfl⟩ := offers
  have same : (BitVec.ofNat 8 c).toNat = c := by
    rw [toNat_ofNat]
    exact Nat.mod_eq_of_lt (by omega)
  obtain ⟨last, visits, stops⟩ := loopTurns_passes ends
  have own := parseTurn_mss (show (BitVec.ofNat 8 c).toNat < size by omega) (by rwa [same])
  rw [same] at own
  obtain rfl := visits.stop_unique (skips_visits reaches short) stops own
  exact Sum.inr.inj (stops.symm.trans own)

theorem optionSize_short (h : TcpHdr) : h.optionSize < 256 := by
  have bound := h.offset.isLt
  rw [TcpHdr.optionSize]
  omega

theorem not_offersMss_zero : ¬OffersMss opts 0 mss := by
  rintro ⟨c, -, -, within, -⟩
  omega

variable {h : TcpHdr}

/-- What `tcp_parseopt` does with a header that may have options. -/
theorem tcpParseopt_some {ip ip' : Ip} {s : SocketId} (options : 0x50 < h.offset &&& 0xf0) :
    tcpParseopt turns ip s h = some ip' ↔
      ∃ result, loopTurns (parseTurn h.opts h.optionSize) turns 0 = some result ∧
        ip.updateTcp s (fun socket =>
          { socket with
            mss := (result.map fun mss => if tcpMss < mss then tcpMss else mss).getD socket.mss }) =
          ip' := by
  rw [tcpParseopt, if_pos options, ← TcpHdr.optionSize, parseLoop_turns]
  simp only [bind_eq_bind, bind_eq_some_iff, Option.some.injEq]

theorem optionSize_eq_zero (none : ¬0x50 < h.offset &&& 0xf0) : h.optionSize = 0 := by
  have table : ∀ n < 256, ¬(0x50 : UChar) < .ofNat 8 n &&& 0xf0 → (n / 16 - 5) * 4 = 0 := by
    decide +kernel
  rw [TcpHdr.optionSize]
  refine table h.offset.toNat h.offset.isLt ?_
  rwa [ofNat_toNat, setWidth_eq]

theorem Orderly.reads {i : Nat} (orderly : Orderly opts size) (visits : Visits opts size c)
    (own : i ∈ parseReads opts size c) : i < size := by
  rw [parseReads] at own
  split_ifs at own with inside last option
  · rw [List.mem_singleton] at own
    omega
  · have within := (orderly.offered c visits inside option).2
    simp only [List.mem_cons, List.not_mem_nil, or_false] at own
    omega
  · have lengths := mt (orderly.lengths c visits) last
    simp only [List.mem_cons, List.not_mem_nil, or_false] at own
    omega
  · contradiction

/-- `tcp_parseopt` is right about a header if its options are in order. -/
theorem Orderly.parsesRight (orderly : Orderly h.opts h.optionSize) :
    ParsesRight h := by
  rcases em (0x50 < h.offset &&& 0xf0) with options | none
  · constructor
    · obtain ⟨turns, ends⟩ := loopTurns_ends_iff.mpr orderly.onward
      obtain ⟨result, ends⟩ := isSome_iff_exists.mp ends
      refine ⟨turns, fun ip s => isSome_iff_exists.mpr ?_⟩
      exact ⟨_, (tcpParseopt_some options).mpr ⟨result, ends, rfl⟩⟩
    · intro turns i member
      rw [tcpParseoptReads, if_pos options] at member
      obtain ⟨c, visits, own⟩ := mem_loopTrace_iff.mp ⟨turns, member⟩
      exact orderly.reads visits own
    · intro turns ip s ip' parses mss offers
      obtain ⟨result, ends, rfl⟩ := (tcpParseopt_some options).mp parses
      obtain rfl := offersMss_found offers (optionSize_short h) ends
      rw [updateTcp_self]
      rfl
    · intro turns ip s ip' parses silent
      obtain ⟨result, ends, rfl⟩ := (tcpParseopt_some options).mp parses
      rw [updateTcp_self]
      cases result with
      | none => rfl
      | some mss =>
        obtain ⟨c, visits, inside, option, rfl⟩ := loopTurns_offers ends
        obtain ⟨reaches, within⟩ := orderly.offered c visits inside option
        exact absurd ⟨_, reaches, option, within, rfl⟩ (silent _)
  · have parses {turns : Nat} {ip : Ip} {s : SocketId} : tcpParseopt turns ip s h = some ip := by
      rw [tcpParseopt, if_neg none]
    constructor
    · exact ⟨0, fun ip s => by rw [parses, isSome_some]⟩
    · intro turns i member
      rw [tcpParseoptReads, if_neg none] at member
      contradiction
    · intro turns ip s ip' _ mss offers
      rw [optionSize_eq_zero none] at offers
      exact absurd offers not_offersMss_zero
    · intro turns ip s ip' result _
      rw [Option.some.inj (parses.symm.trans result)]

theorem ParsesRight.offers (right : ParsesRight h) (options : 0x50 < h.offset &&& 0xf0)
    (visits : Visits h.opts h.optionSize c) (inside : c.toNat < h.optionSize)
    (option : MssOption h.opts c.toNat) :
    ∃ mss, OffersMss h.opts h.optionSize mss := by
  apply not_not.mp
  intro silent
  obtain ⟨turns, ends⟩ := visits.loopTurns (parseTurn_mss inside option)
  let size : UShort := .ofBytes (h.opts (c.toNat + 2)) (h.opts (c.toNat + 3))
  let taken : UShort := if tcpMss < size then tcpMss else size
  let ip : Ip := (requested h []).updateTcp 0 fun socket => { socket with mss := taken + 1 }
  have parses : tcpParseopt turns ip 0 h = some (ip.updateTcp 0 fun socket =>
      { socket with mss := taken }) := (tcpParseopt_some options).mpr ⟨_, ends, rfl⟩
  have kept := right.keeps parses fun mss offers => silent ⟨mss, offers⟩
  rw [updateTcp_self, updateTcp_self] at kept
  change taken = taken + 1 at kept
  bv_omega

theorem ParsesRight.orderly (right : ParsesRight h) :
    Orderly h.opts h.optionSize := by
  rcases em (0x50 < h.offset &&& 0xf0) with options | none
  · have reads {c : UChar} (visits : Visits h.opts h.optionSize c) {i : Nat}
        (own : i ∈ parseReads h.opts h.optionSize c) : i < h.optionSize := by
      obtain ⟨turns, member⟩ := mem_loopTrace_iff.mpr ⟨c, visits, own⟩
      apply right.inside turns
      rwa [tcpParseoptReads, if_pos options]
    constructor
    · obtain ⟨turns, ends⟩ := right.ends
      apply loopTurns_ends_iff.mp
      obtain ⟨ip, parses⟩ := isSome_iff_exists.mp (ends (requested h []) 0)
      obtain ⟨result, ends, -⟩ := (tcpParseopt_some options).mp parses
      exact ⟨turns, by rw [ends, isSome_some]⟩
    · intro c visits last
      apply not_not.mp
      intro longer
      have own : c.toNat + 1 ∈ parseReads h.opts h.optionSize c := by
        rw [parseReads, if_pos (by omega), if_neg longer]
        split_ifs
        · exact .tail _ (.head _)
        · exact .tail _ (.head _)
      exact absurd (reads visits own) (by omega)
    · intro c visits inside option
      have fourth : c.toNat + 3 ∈ parseReads h.opts h.optionSize c := by
        have kinds : ¬(h.opts c.toNat = 0 ∨ h.opts c.toNat = 1) := by
          rw [option.1]
          decide
        rw [parseReads, if_pos inside, if_neg kinds, if_pos option]
        simp
      refine ⟨?_, reads visits fourth⟩
      obtain ⟨mss, offers⟩ := right.offers options visits inside option
      obtain ⟨first, reaches, own, within, -⟩ := offers
      have short := optionSize_short h
      have same : (BitVec.ofNat 8 first).toNat = first := by
        rw [toNat_ofNat]
        exact Nat.mod_eq_of_lt (by omega)
      have firstInside : (BitVec.ofNat 8 first).toNat < h.optionSize := by omega
      have firstOption : MssOption h.opts (BitVec.ofNat 8 first).toNat := by rwa [same]
      rwa [visits.stop_unique (skips_visits reaches short) (parseTurn_mss inside option)
        (parseTurn_mss firstInside firstOption), same]
  · have stops (c : UChar) : parseTurn h.opts h.optionSize c = .inr Option.none := by
      rw [optionSize_eq_zero none, parseTurn, if_neg (Nat.not_lt_zero _)]
    constructor
    · intro c _ cycle
      obtain ⟨d, leads, -⟩ := TransGen.head'_iff.mp cycle
      exact Sum.inr_ne_inl ((stops c).symm.trans leads)
    · intro c _ last
      rw [optionSize_eq_zero none] at last
      contradiction
    · intro c _ inside
      rw [optionSize_eq_zero none] at inside
      contradiction

/-- `tcp_parseopt` is right about a header if and only if its options are in order. -/
theorem tcpParseopt_right_iff (h : TcpHdr) : ParsesRight h ↔ Orderly h.opts h.optionSize :=
  ⟨ParsesRight.orderly, Orderly.parsesRight⟩

/-- A request whose fifth option byte begins an option of length 252, which leads back to the
first. -/
def loopingSyn : TcpHdr :=
  { peerSyn with offset := 0xf0, opts := fun i => [1, 1, 1, 1, 5, 252].getD i 0 }

/-- A peer can keep `tcp_parseopt` in its loop for ever. -/
theorem tcpParseopt_loops : ¬∀ h, ParsesRight h := by
  intro right
  obtain ⟨turns, ends⟩ := (right loopingSyn).ends
  obtain ⟨ip, parses⟩ := isSome_iff_exists.mp (ends (requested loopingSyn []) 0)
  obtain ⟨result, ends, -⟩ := (tcpParseopt_some (by decide)).mp parses
  have cycle : TransGen (Leads (parseTurn loopingSyn.opts loopingSyn.optionSize)) 0 0 := by
    have leads (c : Fin 5) : Leads (parseTurn loopingSyn.opts loopingSyn.optionSize)
        (.ofNat 8 c) (.ofNat 8 ((c + 1 : Fin 5) : Nat)) := by
      revert c
      decide
    exact ((((TransGen.single (leads 0)).tail (leads 1)).tail (leads 2)).tail (leads 3)).tail
      (leads 4)
  exact loopTurns_ends_iff.mp ⟨turns, by rw [ends, isSome_some]⟩ 0 .refl cycle

/-- An MSS option that begins with the last byte of the header is read behind it. -/
example : 4 ∈ tcpParseoptReads 4
    { peerSyn with offset := 0x60, opts := fun i => [1, 1, 1, 2].getD i 0 } := by decide

end Ip
end Uos
