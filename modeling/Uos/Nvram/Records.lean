import Uos.Nvram.Accesses

/-!
# Reading a record

A read transaction succeeds exactly when the header fits: the offset is zero, the signature is a
compatible one, the length is that of the data which was read, and so is the checksum.
-/

namespace Uos.Nvram
namespace Nvdata

def offsetOf (v : Nvdata) : Nat :=
  wordValue (contents v.byte v.begin 2)

def signOf (v : Nvdata) : Nat :=
  wordValue (contents v.byte (v.begin + 2) 2)

def lengthOf (v : Nvdata) : Nat :=
  wordValue (contents v.byte (v.begin + 4) 2)

def crcOf (v : Nvdata) : Nat :=
  dwordValue (contents v.byte (v.begin + 6) 4)

def dataOf (v : Nvdata) (n : Nat) : List UChar :=
  contents v.byte (v.begin + headerSize) n

/-- The header is one that a reader with a signature accepts. -/
structure Opens (config : Config) (v : Nvdata) (sign : Nat) : Prop where
  offset : v.offsetOf = 0
  written : v.signOf ≠ 0 ∧ v.signOf ≠ 0xffff
  alive : v.signOf ^^^ 0xdead ≠ 0
  compatible : config.isCompatible (v.signOf ^^^ 0xdead) sign = true
  low : headerSize ≤ v.lengthOf
  high : v.lengthOf + v.begin < v.limit

/-- A read transaction has begun. -/
structure Opened (v v' : Nvdata) : Prop where
  addr : v'.addr = some (v.begin + headerSize)
  begin : v'.begin = v.begin
  limit : v'.limit = v.limit
  crc : v'.crc = crcStart
  sign : v'.sign = v.signOf ^^^ 0xdead
  same : ∀ x, v.begin + 4 ≤ x → v'.byte x = v.byte x

variable {config : Config} {v v' : Nvdata} {addr sign : Nat} {fields : List Field}

theorem writeWord_fits {val : UShort} (here : v.addr = some addr) (low : v.begin ≤ addr)
    (fits : addr + 2 ≤ v.limit) :
    v.writeWord val =
      { v with
        byte := overlay v.byte addr (wordBytes val)
        writes := v.writes ++ placed addr (wordBytes val)
        crc := crcAll v.crc (wordBytes val)
        addr := some (addr + 2) } :=
  @writeBytes_fits v addr (wordBytes val) here low fits

theorem writeDword_fits {val : ULong} (here : v.addr = some addr) (low : v.begin ≤ addr)
    (fits : addr + 4 ≤ v.limit) :
    v.writeDword val =
      { v with
        byte := overlay v.byte addr (dwordBytes val)
        writes := v.writes ++ placed addr (dwordBytes val)
        crc := crcAll v.crc (dwordBytes val)
        addr := some (addr + 4) } :=
  @writeBytes_fits v addr (dwordBytes val) here low fits

theorem writeSign_fits (room : v.begin + 4 ≤ v.limit) (val : Nat) :
    v.writeSign val =
      { v with
        byte := overlay v.byte (v.begin + 2) (wordBytes (.ofNat 16 val))
        writes := v.writes ++ placed (v.begin + 2) (wordBytes (.ofNat 16 val))
        crc := crcAll v.crc (wordBytes (.ofNat 16 val))
        addr := some (v.begin + 4) } := by
  have low : (v.seek (v.begin + 2)).begin ≤ v.begin + 2 := Nat.le_add_right ..
  exact @writeWord_fits (v.seek (v.begin + 2)) (v.begin + 2) (.ofNat 16 val) rfl low room

theorem writeSign_keeps (room : v.begin + 4 ≤ v.limit) (val : Nat) :
    (v.writeSign val).begin = v.begin ∧ (v.writeSign val).limit = v.limit ∧
      (v.writeSign val).sign = v.sign := by
  rw [writeSign_fits room]
  exact ⟨rfl, rfl, rfl⟩

theorem writeSign_same (room : v.begin + 4 ≤ v.limit) {val x : Nat} (above : v.begin + 4 ≤ x) :
    (v.writeSign val).byte x = v.byte x := by
  rw [writeSign_fits room]
  exact overlay_of_ge (show v.begin + 2 + 2 ≤ x by omega)

/-- `nvdata_begin_read` accepts a header or fails. -/
theorem beginRead_cases (room : v.begin + headerSize ≤ v.limit) :
    Opens config v sign ∧ (v.beginRead config sign).1 = .ok ∧
        Opened v (v.beginRead config sign).2 ∨
      ¬Opens config v sign ∧ (v.beginRead config sign).1 ≠ .ok := by
  have header : headerSize = 10 := rfl
  set v₀ : Nvdata := { v with endAddr := v.begin, sign := 0, addr := some v.begin } with v₀_eq
  have first := @readWord_valid v₀ v.begin rfl le_rfl (show v.begin + 2 ≤ v.limit by omega)
  set v₁ := v₀.passed (v.begin + 2) (crcAll v₀.crc (contents v₀.byte v.begin 2)) with v₁_eq
  have second := @readWord_valid v₁ (v.begin + 2) rfl (show v.begin ≤ v.begin + 2 by omega)
    (show v.begin + 2 + 2 ≤ v.limit by omega)
  set v₂ := v₁.passed (v.begin + 2 + 2) (crcAll v₁.crc (contents v₁.byte (v.begin + 2) 2))
    with v₂_eq
  have third := @readWord_valid v₂ (v.begin + 4) rfl (show v.begin ≤ v.begin + 4 by omega)
    (show v.begin + 4 + 2 ≤ v.limit by omega)
  have offset : wordValue (contents v₀.byte v.begin 2) = v.offsetOf := rfl
  have signed : wordValue (contents v₁.byte (v.begin + 2) 2) = v.signOf := rfl
  have length : wordValue (contents v₂.byte (v.begin + 4) 2) = v.lengthOf := rfl
  rw [offset] at first
  rw [signed] at second
  rw [length] at third
  simp only [beginRead, ← v₀_eq, first, second, third]
  split
  · rename_i wrong
    exact .inr ⟨fun opens => wrong opens.offset, by simp⟩
  rename_i zero
  split
  · rename_i blank
    refine .inr ⟨fun opens => ?_, by simp⟩
    rcases blank with none | blank
    · exact opens.written.1 none
    · exact opens.written.2 blank
  rename_i written
  split
  · rename_i dead
    exact .inr ⟨fun opens => opens.alive dead, by simp⟩
  rename_i alive
  split
  · rename_i different
    exact .inr ⟨fun opens => different opens.compatible, by simp⟩
  rename_i compatible
  set v₃ := v₂.passed (v.begin + 4 + 2) (crcAll v₂.crc (contents v₂.byte (v.begin + 4) 2))
  have valid : v₃.isValidAddr (v.lengthOf + v.begin) = decide (v.lengthOf + v.begin < v.limit) := by
    have low : v₃.begin ≤ v.lengthOf + v.begin := Nat.le_add_left ..
    rw [isValidAddr, decide_eq_true low, Bool.true_and]
    rfl
  have begin : v₃.begin = v.begin := rfl
  rw [begin, valid]
  split
  · rename_i invalid
    refine .inr ⟨fun opens => ?_, by simp⟩
    have low := opens.low
    have high := opens.high
    rcases invalid with outside | short
    · exact outside (by simpa using high)
    · have below : v.lengthOf + v.begin < v.begin + headerSize := short
      omega
  rename_i fits
  simp only [decide_eq_true_eq, not_or, not_lt] at fits written
  have low : v.begin + headerSize ≤ v.lengthOf + v.begin := fits.2
  refine .inl ⟨⟨not_not.mp zero, written, alive, by simpa using compatible, by omega,
    not_le.mp fits.1⟩,
    rfl, ?_⟩
  rcases config.readTaint with _ | _
  · exact ⟨rfl, rfl, rfl, rfl, rfl, fun x _ => rfl⟩
  · set v₄ : Nvdata := { v₃ with sign := v.signOf ^^^ 0xdead } with v₄_eq
    have room' : v₄.begin + 4 ≤ v₄.limit := show v.begin + 4 ≤ v.limit by omega
    obtain ⟨begins, limits, signs⟩ := writeSign_keeps room' 0xdead
    exact ⟨congrArg (fun begin => some (begin + headerSize)) begins, begins, limits, rfl, signs,
      fun x above => writeSign_same room' above⟩

/-- The bytes of a record that the checksum covers behind the data. -/
def trailer (sign length : Nat) : List UChar :=
  [.ofNat 8 sign, .ofNat 8 (sign >>> 8)] ++ wordBytes (.ofNat 16 length)

/-- `nvdata_finalize_read` succeeds when the length and the checksum are those that were read. -/
theorem finalizeRead_ok (here : v.addr = some addr)
    (room : v.begin + headerSize ≤ v.limit) :
    (v.finalizeRead config).1 = .ok ↔
      addr < v.limit ∧ v.lengthOf = addr - v.begin ∧
        v.crcOf = (crcAll v.crc ([.ofNat 8 v.sign, .ofNat 8 (v.sign >>> 8)] ++
          contents v.byte (v.begin + 4) 2)).toNat := by
  have header : headerSize = 10 := rfl
  rw [finalizeRead]
  split
  · rename_i gone
    rw [gone] at here
    contradiction
  rename_i other same
  obtain rfl : addr = other := Option.some.inj (here.symm.trans same)
  simp only
  split
  · rename_i full
    refine ⟨by simp, fun ⟨fits, _⟩ => ?_⟩
    exact absurd fits (not_lt.mpr full)
  rename_i fits
  set v₀ := ({ v with endAddr := v.begin }.addSign).seek (v.begin + 4) with v₀_eq
  have first := @readWord_valid v₀ (v.begin + 4) rfl (show v.begin ≤ v.begin + 4 by omega)
    (show v.begin + 4 + 2 ≤ v.limit by omega)
  set v₁ := v₀.passed (v.begin + 4 + 2) (crcAll v₀.crc (contents v₀.byte (v.begin + 4) 2))
    with v₁_eq
  have second := @readDword_valid v₁ (v.begin + 6) rfl (show v.begin ≤ v.begin + 6 by omega)
    (show v.begin + 6 + 4 ≤ v.limit by omega)
  have length : wordValue (contents v₀.byte (v.begin + 4) 2) = v.lengthOf := rfl
  have crc : dwordValue (contents v₁.byte (v.begin + 6) 4) = v.crcOf := rfl
  have sum : v₁.crc = crcAll v.crc ([.ofNat 8 v.sign, .ofNat 8 (v.sign >>> 8)] ++
      contents v.byte (v.begin + 4) 2) := by
    rw [crcAll_append]
    rfl
  rw [length] at first
  rw [crc] at second
  simp only [first, second, sum]
  split
  · rename_i wrong
    exact ⟨by simp, fun ⟨_, same, _⟩ => absurd same wrong⟩
  rename_i same
  split
  · rename_i wrong
    exact ⟨by simp, fun ⟨_, _, equal⟩ => absurd equal wrong⟩
  rename_i equal
  exact ⟨fun _ => ⟨not_le.mp fits, not_not.mp same, not_not.mp equal⟩, fun _ => rfl⟩

/-- What a reader adds to the checksum of the data before it compares. -/
def readTrailer (v : Nvdata) : List UChar :=
  [.ofNat 8 (v.signOf ^^^ 0xdead), .ofNat 8 ((v.signOf ^^^ 0xdead) >>> 8)] ++
    contents v.byte (v.begin + 4) 2

theorem Opened.contents (opened : Opened v v') {x n : Nat} (above : v.begin + 4 ≤ x) :
    Nvram.contents v'.byte x n = Nvram.contents v.byte x n :=
  contents_congr fun y low _ => opened.same y (by omega)

theorem Opened.reads (opened : Opened v v')
    (fits : v.begin + headerSize + sizeAll fields < v.limit) :
    v'.readAll fields = (receiveAll fields (v.dataOf (sizeAll fields)),
      v'.passed (v.begin + headerSize + sizeAll fields)
        (sumAll crcStart fields (v.dataOf (sizeAll fields)))) := by
  have low : v'.begin ≤ v.begin + headerSize := by
    rw [opened.begin]
    exact Nat.le_add_right ..
  have data : Nvram.contents v'.byte (v.begin + headerSize) (sizeAll fields) =
      v.dataOf (sizeAll fields) := opened.contents (by
    have header : headerSize = 10 := rfl
    omega)
  rw [readAll_valid fields opened.addr low (by rw [opened.limit]; exact fits.le), data, opened.crc]

theorem Opened.finalizes (opened : Opened v v') (room : v.begin + headerSize ≤ v.limit) :
    ((v'.readAll fields).2.finalizeRead config).1 = .ok ↔
      v.begin + headerSize + sizeAll fields < v.limit ∧
        v.lengthOf = headerSize + sizeAll fields ∧
        v.crcOf = (crcAll (sumAll crcStart fields (v.dataOf (sizeAll fields)))
          v.readTrailer).toNat := by
  have start : v'.addr = some (v'.begin + headerSize) := by rw [opened.begin]; exact opened.addr
  have low : v'.begin + headerSize ≤ v'.limit := by rw [opened.begin, opened.limit]; exact room
  rcases lt_or_ge (v.begin + headerSize + sizeAll fields) v.limit with fits | excess
  swap
  · have advances := readAll_advances v' fields
    have stops := advances.addr _ start (Nat.le_add_right ..) low
    rw [opened.begin, opened.limit, Nat.min_eq_right excess] at stops
    have limits := advances.limit.trans opened.limit
    have eof := @finalizeRead_ok config (v'.readAll fields).2 v.limit stops
      (by rw [advances.begin, limits, opened.begin]; exact room)
    rw [eof, limits]
    exact ⟨fun all => absurd all.1 (lt_irrefl _), fun all => absurd all.1 (not_lt.mpr excess)⟩
  rw [opened.reads fits]
  set stop := v.begin + headerSize + sizeAll fields with stop_eq
  set sum := sumAll crcStart fields (v.dataOf (sizeAll fields)) with sum_eq
  have above : (v'.passed stop sum).begin + headerSize ≤ stop := by
    show v'.begin + headerSize ≤ stop
    rw [opened.begin]
    exact Nat.le_add_right ..
  have finalized := @finalizeRead_ok config (v'.passed stop sum) stop rfl low
  have length : (v'.passed stop sum).lengthOf = v.lengthOf := by
    show wordValue (Nvram.contents v'.byte (v'.begin + 4) 2) = _
    rw [opened.begin, opened.contents le_rfl]
    rfl
  have crc : (v'.passed stop sum).crcOf = v.crcOf := by
    show dwordValue (Nvram.contents v'.byte (v'.begin + 6) 4) = _
    rw [opened.begin, opened.contents (by omega)]
    rfl
  have word : Nvram.contents (v'.passed stop sum).byte ((v'.passed stop sum).begin + 4) 2 =
      Nvram.contents v.byte (v.begin + 4) 2 := by
    show Nvram.contents v'.byte (v'.begin + 4) 2 = _
    rw [opened.begin, opened.contents le_rfl]
  have limit : (v'.passed stop sum).limit = v.limit := opened.limit
  have begins : (v'.passed stop sum).begin = v.begin := opened.begin
  have signed : (v'.passed stop sum).sign = v.signOf ^^^ 0xdead := opened.sign
  have sums : (v'.passed stop sum).crc = sum := rfl
  have size : stop - v.begin = headerSize + sizeAll fields := by omega
  rw [finalized, length, crc, word, limit, begins, signed, sums, size]
  rfl

/-- A read transaction succeeds exactly when the header and the data fit together, and returns what
the data stands for, damaged strings aside. -/
theorem readTransaction_eq_some {values : List Value} (room : v.begin + headerSize ≤ v.limit) :
    v.readTransaction config sign fields = some values ↔
      Opens config v sign ∧ v.begin + headerSize + sizeAll fields < v.limit ∧
        v.lengthOf = headerSize + sizeAll fields ∧
        v.crcOf = (crcAll (sumAll crcStart fields (v.dataOf (sizeAll fields)))
          v.readTrailer).toNat ∧
        receiveAll fields (v.dataOf (sizeAll fields)) = values := by
  rw [readTransaction]
  rcases @beginRead_cases config v sign room with ⟨opens, ok, opened⟩ | ⟨closed, failed⟩
  · simp only [if_pos ok]
    split
    · rename_i finalized
      obtain ⟨fits, length, sums⟩ := (opened.finalizes room).mp finalized
      rw [opened.reads fits, Option.some.injEq]
      exact ⟨fun received => ⟨opens, fits, length, sums, received⟩, fun all => all.2.2.2.2⟩
    · rename_i failed
      refine ⟨fun none => absurd none.symm (Option.some_ne_none values),
        fun ⟨_, fits, length, sums, _⟩ => ?_⟩
      exact absurd ((opened.finalizes room).mpr ⟨fits, length, sums⟩) failed
  · simp only [if_neg failed]
    exact ⟨fun none => absurd none.symm (Option.some_ne_none values),
      fun ⟨opens, _⟩ => absurd opens closed⟩

end Nvdata
end Uos.Nvram
