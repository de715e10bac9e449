import Uos.Nvram.Accesses

/-!
# Words in the memory

The functions of `nvram/nvram-rw.c`.  They use one address for all bytes of a word, so that a word
is kept only where nothing would have to be stored behind its first byte.
-/

namespace Uos.Nvram

open Function List

/-- `nvram_write16` -/
def nvramWrite16 (byte : Nat → UChar) (addr : Nat) (val : UShort) : Nat → UChar :=
  Function.update (Function.update byte addr val.low) addr val.high

/-- `nvram_read16` -/
def nvramRead16 (byte : Nat → UChar) (addr : Nat) : UShort :=
  (byte addr).setWidth 16 ||| (byte addr).setWidth 16 <<< 8

/-- `nvram_write32` -/
def nvramWrite32 (byte : Nat → UChar) (addr : Nat) (val : ULong) : Nat → UChar :=
  nvramWrite16 (nvramWrite16 byte addr (val.setWidth 16)) addr ((val >>> 16).setWidth 16)

/-- `nvram_read32` -/
def nvramRead32 (byte : Nat → UChar) (addr : Nat) : ULong :=
  (nvramRead16 byte addr).setWidth 32 ||| (nvramRead16 byte addr).setWidth 32 <<< 16

/-- A call that writes a word. -/
inductive WordWrite
  | write16 (addr : Nat) (val : UShort)
  | write32 (addr : Nat) (val : ULong)

namespace WordWrite

def addr : WordWrite → Nat
  | write16 addr _ | write32 addr _ => addr

def bytes : WordWrite → List UChar
  | write16 _ val => wordBytes val
  | write32 _ val => dwordBytes val

def store (byte : Nat → UChar) : WordWrite → Nat → UChar
  | write16 addr val => nvramWrite16 byte addr val
  | write32 addr val => nvramWrite32 byte addr val

def ReadsBack (byte : Nat → UChar) : WordWrite → Prop
  | write16 addr val => nvramRead16 byte addr = val
  | write32 addr val => nvramRead32 byte addr = val

def Overlaps (w v : WordWrite) : Prop :=
  w.addr < v.addr + v.bytes.length ∧ v.addr < w.addr + w.bytes.length

/-- Every word is put into the memory with its least significant byte first, and is read back if no
later one overlaps it. -/
def StoresRight (byte : Nat → UChar) (writes : List WordWrite) : Prop :=
  ∀ before w after, writes = before ++ w :: after →
    w.store (before.foldl store byte) = overlay (before.foldl store byte) w.addr w.bytes ∧
      ((∀ v ∈ after, ¬w.Overlaps v) → w.ReadsBack (writes.foldl store byte))

/-- The first byte of a word is its last one, and the memory has the other ones. -/
def Present (byte : Nat → UChar) (w : WordWrite) : Prop :=
  w.bytes.head? = w.bytes.getLast? ∧ contents byte (w.addr + 1) (w.bytes.length - 1) = w.bytes.tail

def Uniform (w : WordWrite) : Prop :=
  ∀ c ∈ w.bytes, some c = w.bytes.getLast?

variable {byte : Nat → UChar} {w v : WordWrite}

theorem exists_bytes (w : WordWrite) :
    ∃ c rest last, w.bytes = c :: rest ∧ w.bytes.getLast? = some last := by
  cases w with
  | write16 addr val => exact ⟨_, _, _, rfl, rfl⟩
  | write32 addr val => exact ⟨_, _, _, rfl, rfl⟩

theorem store_eq {last : UChar} (ends : w.bytes.getLast? = some last) :
    w.store byte = Function.update byte w.addr last := by
  cases w with
  | write16 addr val =>
    cases ends
    exact update_idem ..
  | write32 addr val =>
    cases ends
    simp only [store, nvramWrite32, nvramWrite16, update_idem]
    rfl

theorem overlay_contents (byte : Nat → UChar) (addr n : Nat) :
    overlay byte addr (contents byte addr n) = byte := by
  induction n generalizing addr with
  | zero => rfl
  | succ n ih => rw [contents, overlay, update_eq_self, ih]

theorem overlay_eq_iff {addr : Nat} {first last : UChar} {rest : List UChar} :
    Function.update byte addr last = overlay byte addr (first :: rest) ↔
      first = last ∧ contents byte (addr + 1) rest.length = rest := by
  have kept : contents (Function.update byte addr first) (addr + 1) rest.length =
      contents byte (addr + 1) rest.length := by
    refine contents_congr fun x low _ => ?_
    rw [update_of_ne (by omega)]
  rw [overlay]
  constructor
  · intro same
    have here := congrFun same addr
    rw [overlay_of_lt (Nat.lt_succ_self addr), update_self, update_self] at here
    obtain rfl := here
    refine ⟨rfl, kept.symm.trans ?_⟩
    rw [same]
    exact contents_overlay
  · rintro ⟨rfl, behind⟩
    rw [← kept] at behind
    rw [← behind, overlay_contents]

theorem store_eq_overlay_iff :
    w.store byte = overlay byte w.addr w.bytes ↔ w.Present byte := by
  obtain ⟨c, rest, last, bytes, ends⟩ := w.exists_bytes
  rw [store_eq ends, Present, ends, bytes, overlay_eq_iff]
  simp

theorem toNat_twice {w n : Nat} (c : BitVec n) (wide : 2 * n ≤ w) :
    (c.setWidth w ||| c.setWidth w <<< n).toNat = c.toNat * (2 ^ n + 1) := by
  have small := c.isLt
  have square : 2 ^ n * 2 ^ n ≤ 2 ^ w := by
    rw [← Nat.pow_add]
    exact Nat.pow_le_pow_right Nat.two_pos (by omega)
  have product : c.toNat * 2 ^ n < 2 ^ w :=
    (Nat.mul_lt_mul_of_pos_right small (Nat.two_pow_pos n)).trans_le square
  rw [BitVec.toNat_or, BitVec.toNat_shiftLeft, BitVec.toNat_setWidth_of_le (by omega),
    Nat.shiftLeft_eq, Nat.mod_eq_of_lt product, ← Nat.shiftLeft_eq, Nat.or_comm,
    ← Nat.shiftLeft_add_eq_or_of_lt small, Nat.shiftLeft_eq, Nat.mul_succ]

theorem readsBack_iff {last : UChar} (ends : w.bytes.getLast? = some last)
    (here : byte w.addr = last) : w.ReadsBack byte ↔ w.Uniform := by
  have small := last.isLt
  rw [Uniform, ends]
  cases w with
  | write16 addr val =>
    have value := wordValue_wordBytes val
    have read : (nvramRead16 byte addr).toNat = last.toNat * 257 := by
      rw [← here]
      exact toNat_twice _ (by decide)
    have last_eq : val.high = last := Option.some.inj ends
    rw [wordBytes, wordValue, Nat.shiftLeft_eq] at value
    simp only [ReadsBack, bytes, wordBytes, forall_mem_cons, Option.some.injEq, last_eq,
      getD_cons_zero, getD_cons_succ, not_mem_nil, false_implies, implies_true,
      and_true] at value ⊢
    rw [← BitVec.toNat_inj, ← BitVec.toNat_inj, read]
    omega
  | write32 addr val =>
    have value := dwordValue_dwordBytes val
    have read : (nvramRead32 byte addr).toNat = last.toNat * 16843009 := by
      rw [nvramRead32, toNat_twice _ (by decide), nvramRead16, toNat_twice _ (by decide)]
      rw [show byte addr = last from here]
      omega
    have last_eq : UShort.high ((val >>> 16).setWidth 16) = last := Option.some.inj ends
    simp only [ReadsBack, bytes, dwordBytes, dwordValue, wordValue, wordBytes, cons_append,
      nil_append, forall_mem_cons, Option.some.injEq, last_eq, Nat.shiftLeft_eq,
      drop_succ_cons, drop_zero, getD_cons_zero, getD_cons_succ,
      not_mem_nil, false_implies, implies_true, and_true] at value ⊢
    generalize UShort.low (val.setWidth 16) = b₀ at value ⊢
    generalize UShort.high (val.setWidth 16) = b₁ at value ⊢
    generalize UShort.low ((val >>> 16).setWidth 16) = b₂ at value ⊢
    simp only [← BitVec.toNat_inj, read]
    constructor
    · intro same
      have first : b₀.toNat = last.toNat := by omega
      have second : b₁.toNat = last.toNat := by omega
      exact ⟨first, second, by omega⟩
    · rintro ⟨first, second, third⟩
      omega

theorem foldl_store_of_apart {writes : List WordWrite} (apart : ∀ v ∈ writes, ¬w.Overlaps v) :
    writes.foldl store byte w.addr = byte w.addr := by
  induction writes generalizing byte with
  | nil => rfl
  | cons v writes ih =>
    obtain ⟨first, later⟩ := forall_mem_cons.mp apart
    obtain ⟨c, rest, last, bytes, ends⟩ := v.exists_bytes
    obtain ⟨c', rest', last', bytes', -⟩ := w.exists_bytes
    have other : w.addr ≠ v.addr := by
      intro same
      apply first
      rw [Overlaps, bytes, bytes', length_cons, length_cons]
      omega
    rw [foldl_cons, ih later, store_eq ends, update_of_ne other]

/-- The words of a run are stored and read right if and only if each of them is there before it is
written, but for the first byte, which is the last one as well, and is made of one byte unless a
later one overlaps it. -/
theorem stores_right_iff (byte : Nat → UChar) (writes : List WordWrite) :
    StoresRight byte writes ↔ ∀ before w after, writes = before ++ w :: after →
      w.Present (before.foldl store byte) ∧ ((∀ v ∈ after, ¬w.Overlaps v) → w.Uniform) := by
  refine forall_congr' fun before => forall_congr' fun w => forall_congr' fun after =>
    forall_congr' fun split => and_congr store_eq_overlay_iff (forall_congr' fun apart => ?_)
  obtain ⟨c, rest, last, bytes, ends⟩ := w.exists_bytes
  apply readsBack_iff ends
  rw [split, foldl_append, foldl_cons, foldl_store_of_apart apart, store_eq ends,
    update_self]

/-- Both bytes of a word are written to its address. -/
theorem write16_not_storesRight : ¬∀ byte writes, StoresRight byte writes := by
  intro right
  have stored := ((right (fun _ => 0) [write16 0 0x0102]) [] _ [] rfl).1
  exact absurd (congrFun stored 1) (by decide)

end WordWrite
end Uos.Nvram
