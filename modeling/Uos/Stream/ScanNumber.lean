import Mathlib.Data.List.DropRight
import Uos.Stream.Numbers
import Uos.Stream.ScanString

/-!
# Numbers that are scanned

`scan_number` and `stream_vscanf` of `stream/vscanf.c` on what `stream_vprintf` has put.
-/

namespace Uos.Scanf

open Printf

/-- `ISDIGIT` -/
def isDigit (base : Nat) (c : UChar) : Bool :=
  (0x30 ≤ c && c ≤ 0x39) || base == 16 && ((0x61 ≤ c && c ≤ 0x66) || (0x41 ≤ c && c ≤ 0x46))

def digitValue (c : UChar) : Nat :=
  if 0x30 ≤ c ∧ c ≤ 0x39 then c.toNat - 48
  else if 0x61 ≤ c ∧ c ≤ 0x66 then c.toNat - 87
  else c.toNat - 55

/-- The loop over the digits: `val`, and the stream behind them. -/
def scanDigits (base : Nat) : Nat → ULong → List UChar → ULong × List UChar
  | len + 1, val, c :: stream =>
    if isDigit base c then
      scanDigits base len (val * .ofNat 32 base + .ofNat 32 (digitValue c)) stream
    else (val, c :: stream)
  | _, val, stream => (val, stream)

/-- `scan_number` of a `long` that is stored: the value, if there is one, and the stream. -/
def scanNumber (base len : Nat) (stream : List UChar) : Option ULong × List UChar :=
  match stream.dropWhile isSpace with
  | [] => (none, [])
  | c :: rest =>
    if c = 0x2d ∨ c = 0x2b then
      match rest with
      | [] => (none, [])
      | next :: _ =>
        if len = 1 ∨ !isDigit base next then (none, rest)
        else
          let (val, stream) := scanDigits base (len - 1) 0 rest
          (some (if c = 0x2d then -val else val), stream)
    else if isDigit base c then
      let (val, stream) := scanDigits base len 0 (c :: rest)
      (some val, stream)
    else (none, c :: rest)

/-- A part of a format. -/
inductive Part
  /-- `%ld`, `%lo` or `%lx` -/
  | number (base : Nat)
  | space

/-- `stream_vscanf` after `nmatch` values: the values, where there is one, and what it returns. -/
def streamVscanf : List Part → List UChar → Nat → List (Option ULong) × Int
  | [], _, nmatch => ([], nmatch)
  | .space :: fmt, stream, nmatch => streamVscanf fmt (stream.dropWhile isSpace) nmatch
  | .number base :: fmt, stream, nmatch =>
    let (val, stream) := scanNumber base 30000 stream
    let nmatch := if val.isSome then nmatch + 1 else nmatch
    if stream = [] then ([val], if nmatch = 0 then -1 else nmatch)
    else
      let (vals, result) := streamVscanf fmt stream nmatch
      (val :: vals, result)

def printed (small : Nat) : List (Directive × ULong) → List UChar
  | [] => []
  | [(d, value)] => (number small d value).1
  | (d, value) :: items => (number small d value).1 ++ 0x20 :: printed small items

/-- The conversions of their formats, with one space between them. -/
def format : List (Directive × ULong) → List Part
  | [] => []
  | [(d, _)] => [.number d.conversion.base]
  | (d, _) :: items => .number d.conversion.base :: .space :: format items

/-- The number of characters from the sign to the last digit. -/
def figures (d : Directive) (value : ULong) : Nat :=
  if d.ladjust = false ∧ d.zero = true ∧ d.precision = none then max d.width (d.plain value)
  else d.plain value

/-- A directive of `%ld`, `%lo` or `%lx` without a sharp flag. -/
def Plain (d : Directive) : Prop :=
  d.sharp = false ∧ d.conversion ∈ [.d, .o, .x false]

/-- The width and the precision fit into `small_int_t`, and a field without a width is long
enough. -/
def Scannable (small : Nat) (d : Directive) (value : ULong) : Prop :=
  d.width * 2 < 2 ^ small ∧ d.precision.getD 0 * 2 < 2 ^ small ∧ figures d value ≤ 30000

variable {small base len : Nat} {val : ULong} {d : Directive} {value : ULong}

theorem scanned_mkhex : ∀ k < 16, digitValue (mkhex k) = k ∧
    isDigit 16 (mkhex k) = true ∧ (k < 10 → ∀ base ∈ [8, 10], isDigit base (mkhex k) = true) := by
  decide

theorem scanDigits_append {digits rest : List UChar} (all : ∀ c ∈ digits, isDigit base c = true)
    (few : digits.length ≤ len) (ends : ∀ c ∈ rest.head?, isDigit base c = false) :
    scanDigits base len val (digits ++ rest) =
      (digits.foldl (fun val c => val * .ofNat 32 base + .ofNat 32 (digitValue c)) val, rest) := by
  induction digits generalizing len val with
  | nil =>
    cases len with
    | zero => rfl
    | succ len =>
      cases rest with
      | nil => rfl
      | cons c rest => simp [scanDigits, ends c rfl]
  | cons c digits ih =>
    obtain ⟨first, more⟩ := List.forall_mem_cons.mp all
    cases len with
    | zero => contradiction
    | succ len =>
      rw [List.cons_append, scanDigits, if_pos first, ih more (Nat.le_of_succ_le_succ few),
        List.foldl_cons]

theorem scanNumber_signed {sign digits rest : List UChar} (a : Nat)
    (signs : sign = [] ∨ sign = [0x2d] ∨ sign = [0x2b]) (some : digits ≠ [])
    (all : ∀ c ∈ digits, isDigit base c = true) (few : sign.length + digits.length ≤ len)
    (ends : ∀ c ∈ rest.head?, isDigit base c = false) :
    scanNumber base len (List.replicate a 0x20 ++ (sign ++ (digits ++ rest))) =
      (let val := digits.foldl (fun val c => val * .ofNat 32 base + .ofNat 32 (digitValue c)) 0
      Option.some (if sign = [0x2d] then -val else val), rest) := by
  have other : ∀ c : UChar, isDigit 16 c = true → isSpace c = false ∧ c ≠ 0x2d ∧ c ≠ 0x2b := by
    decide +kernel
  obtain ⟨c, more, rfl⟩ := List.exists_cons_of_ne_nil some
  have first := all c (List.mem_cons_self ..)
  have wide : isDigit 16 c = true := by
    rw [isDigit, Bool.or_eq_true] at first ⊢
    exact first.imp_right fun hex => (Bool.and_eq_true_iff.mp hex).2
  obtain ⟨shows, minus, plus⟩ := other c wide
  have skipped : (List.replicate a 0x20 ++ (sign ++ (c :: more ++ rest))).dropWhile isSpace =
      sign ++ (c :: more ++ rest) := by
    rw [List.dropWhile_append_of_pos fun x member => by
      rw [List.eq_of_mem_replicate member]
      decide]
    rcases signs with rfl | rfl | rfl
    · simp [shows]
    · rfl
    · rfl
  rw [scanNumber, skipped]
  rcases signs with rfl | rfl | rfl
  · have digits := @scanDigits_append base len 0 (c :: more) rest all (by simpa using few) ends
    dsimp only [List.nil_append, List.cons_append] at digits ⊢
    rw [if_neg (not_or.mpr ⟨minus, plus⟩), if_pos first, digits]
    rfl
  all_goals
    rw [List.length_singleton, List.length_cons] at few
    have digits := @scanDigits_append base (len - 1) 0 (c :: more) rest all
      (by rw [List.length_cons]; omega) ends
    have long : ¬(len = 1 ∨ !isDigit base c) := by
      rw [first]
      simp
      omega
    dsimp only [List.nil_append, List.cons_append] at digits ⊢
    rw [if_pos (by decide), if_neg long, digits]
    rfl

theorem scanned_numeral {conversion : Conversion} (lower : conversion ∈ [.d, .o, .x false])
    (z n : Nat) :
    let digits := List.replicate z 0x30 ++ numeral conversion n
    (∀ c ∈ digits, isDigit conversion.base c = true) ∧
      digits.foldl (fun val c => val * .ofNat 32 conversion.base + .ofNat 32 (digitValue c)) 0 =
        (.ofNat 32 n : ULong) := by
  have plain (c : UChar) : shown conversion c = c := by
    rw [shown, if_neg]
    rintro ⟨rfl, -⟩
    simp at lower
  have scanned (k : Nat) (less : k < conversion.base) :
      digitValue (mkhex k) = k ∧ isDigit conversion.base (mkhex k) = true := by
    have upper : conversion.base ≤ 16 := by
      cases conversion <;> simp [Conversion.base]
    obtain ⟨value, hex, decimal⟩ := scanned_mkhex k (less.trans_le upper)
    refine ⟨value, ?_⟩
    cases conversion with
    | x => exact hex
    | o => exact decimal (less.trans (by decide)) 8 (by decide)
    | d | u => exact decimal less 10 (by decide)
  have reads (ks : List Nat) (all : ∀ k ∈ ks, k < conversion.base) :
      (∀ c ∈ ks.reverse.map mkhex, isDigit conversion.base c = true) ∧
        (ks.reverse.map mkhex).foldl
          (fun val c => val * .ofNat 32 conversion.base + .ofNat 32 (digitValue c)) 0 =
            (.ofNat 32 (Nat.ofDigits conversion.base ks) : ULong) := by
    induction ks with
    | nil => exact ⟨fun c member => by simp at member, rfl⟩
    | cons k ks ih =>
      obtain ⟨first, more⟩ := List.forall_mem_cons.mp all
      obtain ⟨value, digit⟩ := scanned k first
      obtain ⟨digits, fold⟩ := ih more
      rw [List.reverse_cons, List.map_append, List.foldl_append, fold, Nat.ofDigits_cons]
      refine ⟨List.forall_mem_append.mpr ⟨digits, by simpa using digit⟩, ?_⟩
      simp [value, BitVec.ofNat_add, BitVec.ofNat_mul, BitVec.mul_comm, BitVec.add_comm]
  have same : List.replicate z 0x30 ++ numeral conversion n =
      (digitsOf conversion.base n ++ List.replicate z 0).reverse.map mkhex := by
    rw [List.reverse_append, List.map_append, List.reverse_replicate, List.map_replicate, numeral]
    simp only [plain]
    rfl
  have many := base_many conversion
  have bounded : ∀ k ∈ digitsOf conversion.base n ++ List.replicate z 0,
      k < conversion.base := by
    intro k member
    rcases List.mem_append.mp member with inside | zero
    · rw [digitsOf] at inside
      split at inside
      · rw [List.mem_singleton.mp inside]
        omega
      · exact Nat.digits_lt_base (by omega) inside
    · rw [List.eq_of_mem_replicate zero]
      omega
  have value : Nat.ofDigits conversion.base (digitsOf conversion.base n) = n := by
    rw [digitsOf]
    split
    · rename_i zero
      rw [zero]
      rfl
    · exact Nat.ofDigits_digits ..
  have known := reads _ bounded
  rw [Nat.ofDigits_append_replicate_zero, value] at known
  rwa [same]

theorem scanNumber_field (some : 8 ≤ small) (plain : Plain d) (fits : Scannable small d value) :
    ∃ b, ∀ rest : List UChar, (∀ c ∈ rest.head?, c = 0x20) →
      scanNumber d.conversion.base 30000 ((number small d value).1 ++ rest) =
        (Option.some value, List.replicate b 0x20 ++ rest) := by
  obtain ⟨width, precision, long⟩ := fits
  obtain ⟨a, m, b, text, padding, zeros, -⟩ := @number_eq small d value some width precision
  have unmarked : d.markOf value = [] := if_neg fun marked => by simp [plain.1] at marked
  have signs : d.neg value = [] ∨ d.neg value = [0x2d] ∨ d.neg value = [0x2b] := by
    rw [Directive.neg]
    split_ifs <;> simp
  have shorter : (d.neg value).length ≤ (d.signOf value).length := by
    rw [Directive.neg, Directive.signOf]
    split_ifs <;> simp_all
  have few := length_numeralOf d value
  refine ⟨b, fun rest blank => ?_⟩
  generalize count : d.precision.getD 0 - 32 + m +
    (min (d.precision.getD 0) 32 - (d.numeralOf value).length) = z at text
  have short : (d.neg value).length + (List.replicate z 0x30 ++ d.numeralOf value).length ≤
      30000 := by
    rw [List.length_append, List.length_replicate]
    rw [figures, Directive.plain] at long
    rcases Nat.eq_zero_or_pos m with rfl | more
    · split_ifs at long <;> omega
    · rw [if_pos (zeros more.ne')] at long
      rw [(zeros more.ne').2.2, Option.getD_none] at padding count long
      omega
  have ends : ∀ c ∈ (List.replicate b 0x20 ++ rest).head?, isDigit d.conversion.base c = false := by
    intro c member
    have space : c = 0x20 := by
      cases b with
      | zero => exact blank c member
      | succ b => exact (Option.some.inj member).symm
    rw [space]
    simp [isDigit]
  rw [unmarked, Directive.numeralOf, ← value_eq] at *
  obtain ⟨all, fold⟩ := scanned_numeral plain.2 z
    (if d.conversion = .d ∧ value.msb then -value else value).toNat
  have visible (n : Nat) : List.replicate z 0x30 ++ numeral d.conversion n ≠ [] := by
    rw [numeral, digitsOf]
    split <;> simp [*, Nat.digits_ne_nil_iff_ne_zero]
  have known := scanNumber_signed a signs (visible _) all short ends
  rw [fold, BitVec.ofNat_toNat, BitVec.setWidth_eq] at known
  rw [text]
  simp only [List.append_assoc, List.nil_append] at known ⊢
  rw [known]
  by_cases negative : d.conversion = .d ∧ value.msb = true
  · have nonzero : value ≠ 0 := by
      rintro rfl
      exact absurd negative.2 (by decide)
    have minus : d.neg value = [0x2d] := by
      rw [Directive.neg, if_pos ⟨negative.1, nonzero⟩, if_pos negative.2]
    rw [if_pos minus, if_pos negative, BitVec.neg_neg]
  · have minus : d.neg value ≠ [0x2d] := by
      rw [Directive.neg]
      split_ifs <;> simp_all
    rw [if_neg minus, if_neg negative]

theorem streamVscanf_printed (some : 8 ≤ small) {items : List (Directive × ULong)}
    (plain : ∀ item ∈ items, Plain item.1) (fits : ∀ item ∈ items, Scannable small item.1 item.2)
    (nonempty : items ≠ []) (nmatch : Nat) {stream : List UChar}
    (left : stream.dropWhile isSpace = (printed small items).dropWhile isSpace) :
    streamVscanf (format items) stream nmatch =
      (items.map fun item => Option.some item.2, ((nmatch + items.length : Nat) : Int)) := by
  have skip (base : Nat) {stream stream' : List UChar}
      (same : stream.dropWhile isSpace = stream'.dropWhile isSpace) :
      scanNumber base 30000 stream = scanNumber base 30000 stream' := by
    rw [scanNumber, same, ← scanNumber]
  induction items generalizing nmatch stream with
  | nil => contradiction
  | cons item items ih =>
    obtain ⟨d, value⟩ := item
    obtain ⟨plain, plain'⟩ := List.forall_mem_cons.mp plain
    obtain ⟨fit, fits'⟩ := List.forall_mem_cons.mp fits
    obtain ⟨b, scans⟩ := scanNumber_field some plain fit
    cases items with
    | nil =>
      have last := (skip d.conversion.base left).trans
        ((congrArg _ (List.append_nil _).symm).trans (scans [] (by simp)))
      rw [format, streamVscanf, last]
      simp [streamVscanf]
    | cons next items =>
      have first := (skip d.conversion.base left).trans
        (scans (0x20 :: printed small (next :: items)) fun c member =>
          (Option.some.inj member).symm)
      have spaces (rest : List UChar) :
          ((List.replicate b 0x20 ++ 0x20 :: rest).dropWhile isSpace).dropWhile isSpace =
            rest.dropWhile isSpace := by
        rw [List.dropWhile_idempotent, List.dropWhile_append_of_pos fun x member => by
          rw [List.eq_of_mem_replicate member]
          decide]
        rfl
      have behind := ih plain' fits' (List.cons_ne_nil _ _) (nmatch + 1) (spaces _)
      change streamVscanf (.number _ :: .space :: format (next :: items)) _ _ = _
      rw [streamVscanf, first]
      simp only [Option.isSome_some, if_true, List.append_eq_nil_iff, reduceCtorEq, and_false,
        if_false, streamVscanf, behind, List.map_cons, List.length_cons]
      rw [Nat.add_right_comm]
      rfl

/-- The values of a format are scanned from what was printed for it. -/
def ScansBack (small : Nat) (items : List (Directive × ULong)) : Prop :=
  streamVscanf (format items) (printed small items) 0 =
    (items.map fun item => some item.2, (items.length : Int))

/-- Numbers are scanned back where their directives fit into `small_int_t` and no number is longer
than a field can be. -/
theorem scans_back (some : 8 ≤ small) (items : List (Directive × ULong))
    (plain : ∀ item ∈ items, Plain item.1)
    (fits : ∀ item ∈ items, Scannable small item.1 item.2) : ScansBack small items := by
  rcases eq_or_ne items [] with rfl | nonempty
  · rfl
  · exact (streamVscanf_printed some plain fits nonempty 0 rfl).trans (by simp)

theorem scans_back_five : ScansBack 32 [(⟨false, false, true, true, 10, none, .d⟩, 5)] :=
  scans_back (by decide) _ (by simp [Plain]) (by
    have positive : (5#32).msb = false := by decide
    simp [Scannable, figures, Directive.plain, Directive.signOf, Directive.markOf,
      Directive.numeralOf, numeral, digitsOf, Conversion.base, positive])

/-- With a width of 130 and a `small_int_t` of 8 bits, the sign of -5 is put before the padding. -/
theorem wide_not_scansBack : ¬∀ small items, 8 ≤ small → (∀ item ∈ items, Plain item.1) →
    ScansBack small items := by
  intro back
  have scans := back 8 [(⟨false, false, false, false, 130, none, .d⟩, -5)] (by decide)
    (by simp [Plain])
  have digits (n : Nat) (w : Int) (five : n = 5) (none : w = -1) :
      ksprintn Conversion.d.base n w = [0x35] := by
    rw [five, none, ksprintn]
    decide
  have text : (number 8 ⟨false, false, false, false, 130, none, .d⟩ (-5)).1 =
      0x2d :: (List.replicate 126 0x20 ++ [0x35]) := by
    rw [number]
    dsimp only
    rw [digits _ _ (by decide) (by decide)]
    decide
  rw [ScansBack, printed, text] at scans
  exact absurd scans (by decide)

end Uos.Scanf
