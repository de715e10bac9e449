import Mathlib.Data.Nat.Digits.Lemmas
import Mathlib.Tactic.Ring
import Uos.Net.Bytes

/-!
# Numbers that are printed

The numbers of `stream_vprintf` in `stream/vprintf.c`, where `long` has 32 bits, after the flags,
the width and the precision were read.  `MAXNBUF` is 33 there.
-/

namespace Uos.Printf

inductive Conversion
  | d
  | u
  | o
  | x (uppercase : Bool)
  deriving DecidableEq

/-- A directive for a number. -/
structure Directive where
  ladjust : Bool
  sharp : Bool
  zero : Bool
  plus : Bool
  width : Nat
  precision : Option Nat
  conversion : Conversion

def Conversion.base : Conversion → Nat
  | d | u => 10
  | o => 8
  | x _ => 16

/-- `mkhex` -/
def mkhex (ch : Nat) : UChar :=
  let ch := ch % 16
  .ofNat 8 (if 9 < ch then ch + 87 else ch + 48)

/-- `ksprintn`: the digits in reverse order.  The loop goes on for the width too. -/
def ksprintn (base ul : Nat) (width : Int) : List UChar :=
  if 1 < base ∧ (1 < width ∨ ul / base ≠ 0) then
    mkhex (ul % base) :: ksprintn base (ul / base) (width - 1)
  else [mkhex (ul % base)]
termination_by ul + width.toNat
decreasing_by
  rename_i again
  have less := Nat.div_le_self ul base
  rcases again.2 with more | more
  · omega
  · have positive : ul ≠ 0 := by
      rintro rfl
      exact more (Nat.zero_div base)
    have smaller := Nat.div_lt_self (Nat.pos_of_ne_zero positive) again.1
    omega

def shown (conversion : Conversion) (c : UChar) : UChar :=
  if conversion = .x true ∧ 0x61 ≤ c ∧ c ≤ 0x7a then c - 0x20 else c

def mark (conversion : Conversion) : List UChar :=
  match conversion with
  | .d | .u => []
  | .o => [0x30]
  | .x uppercase => [0x30, if uppercase then 0x58 else 0x78]

/-- A value as `small_int_t` holds it. -/
def wrap (small : Nat) (n : Int) : Int :=
  n.bmod (2 ^ small)

/-- `if (allowed && width && (width -= size) > 0) do PUTC (c); while (--width > 0);`, with the width
behind it. -/
def pad (small size : Nat) (allowed : Bool) (c : UChar) (width : Int) : List UChar × Int :=
  if allowed ∧ width ≠ 0 then
    let left := wrap small (width - size)
    if 0 < left then (List.replicate left.toNat c, 0) else ([], left)
  else ([], width)

/-- `neg`, which is not set for 0. -/
def Directive.neg (d : Directive) (ul : ULong) : List UChar :=
  if d.conversion = .d ∧ ul ≠ 0 then
    if ul.msb then [0x2d] else if d.plus then [0x2b] else []
  else []

def Directive.markOf (d : Directive) (ul : ULong) : List UChar :=
  if d.sharp ∧ ul ≠ 0 then mark d.conversion else []

/-- What a directive puts for a value, and the `retval` of a format that is this directive. -/
def number (small : Nat) (d : Directive) (ul : ULong) : List UChar × Int :=
  let neg := d.neg ul
  let mark := d.markOf ul
  let ul := if d.conversion = .d ∧ ul.msb then -ul else ul
  let dwidth := (d.precision.map fun n : Nat => wrap small n).getD (-1)
  let extrazeros := if 33 ≤ dwidth then wrap small (dwidth - 33 + 1) else 0
  let digits := ksprintn d.conversion.base ul.toNat (if 33 ≤ dwidth then 32 else dwidth)
  let size := digits.length + mark.length + neg.length
  let zeros := d.zero && d.precision.isNone
  let front := pad small size (!d.ladjust && !zeros) 0x20 (wrap small d.width)
  let middle := pad small size (!d.ladjust) (if zeros then 0x30 else 0x20) front.2
  let back := pad small size d.ladjust 0x20 middle.2
  let text := front.1 ++ (neg ++ (mark ++ (List.replicate extrazeros.toNat 0x30 ++
    (middle.1 ++ (digits.reverse.map (shown d.conversion) ++ back.1)))))
  (text, wrap small text.length)

def digitsOf (base n : Nat) : List Nat :=
  if n = 0 then [0] else Nat.digits base n

def numeral (conversion : Conversion) (n : Nat) : List UChar :=
  (digitsOf conversion.base n).reverse.map fun digit => shown conversion (mkhex digit)

namespace Directive

variable (d : Directive) (ul : ULong)

def signOf : List UChar :=
  if d.conversion = .d then if ul.msb then [0x2d] else if d.plus then [0x2b] else [] else []

def numeralOf : List UChar :=
  numeral d.conversion (if d.conversion = .d then ul.toInt.natAbs else ul.toNat)

def plain : Nat :=
  (d.signOf ul).length + (d.markOf ul).length + max (d.precision.getD 0) (d.numeralOf ul).length

/-- One field of spaces, sign, prefix, zeros, digits and spaces. -/
structure Exact (small : Nat) : Prop where
  form : ∃ a z b, (number small d ul).1 = List.replicate a 0x20 ++ (d.signOf ul ++ (d.markOf ul ++
    (List.replicate z 0x30 ++ (d.numeralOf ul ++ List.replicate b 0x20)))) ∧
      d.precision.getD 0 ≤ z + (d.numeralOf ul).length
  length : (number small d ul).1.length = max d.width (d.plain ul)
  returned : (number small d ul).2 = (number small d ul).1.length

/-- The value has a sign if it needs one, the zeros beyond the buffer meet no padding, and the field
can be counted. -/
def Fits (small : Nat) : Prop :=
  ¬(d.conversion = .d ∧ d.plus ∧ ul = 0) ∧
    (d.precision.getD 0 ≤ 32 ∨ d.width ≤ (d.signOf ul).length + (d.markOf ul).length + 32) ∧
      max d.width (d.plain ul) * 2 < 2 ^ small

end Directive

variable {small base ul : Nat} {width : Int}

theorem ksprintn_eq (many : 1 < base) : ksprintn base ul width =
    (digitsOf base ul).map mkhex ++
      List.replicate (width.toNat - (digitsOf base ul).length) 0x30 := by
  have step (n : Nat) (more : n / base ≠ 0) :
      digitsOf base n = n % base :: digitsOf base (n / base) := by
    have positive : n ≠ 0 := by
      rintro rfl
      exact more (Nat.zero_div base)
    rw [digitsOf, if_neg positive, Nat.digits_def' many (Nat.pos_of_ne_zero positive), digitsOf,
      if_neg more]
  have last (n : Nat) (none : n / base = 0) : digitsOf base n = [n % base] := by
    have less : n < base := (Nat.div_eq_zero_iff_lt (by omega)).mp none
    rw [digitsOf, Nat.mod_eq_of_lt less]
    split
    · rename_i zero
      rw [zero]
    · rename_i positive
      exact Nat.digits_of_lt base n positive less
  fun_induction ksprintn base ul width with
  | case1 ul width again ih =>
    rcases eq_or_ne (ul / base) 0 with none | more
    · have zero : digitsOf base 0 = [0] := if_pos rfl
      have wide : width.toNat - 1 = (width - 1).toNat - 1 + 1 := by omega
      rw [ih, none, last ul none, zero, List.length_singleton, List.length_singleton, wide,
        List.replicate_succ]
      rfl
    · rw [ih, step ul more, List.length_cons, List.map_cons, List.cons_append]
      congr 3
      omega
  | case2 ul width done =>
    obtain ⟨narrow, none⟩ := not_or.mp fun again => done ⟨many, again⟩
    rw [last ul (not_not.mp none), List.length_singleton,
      show width.toNat - 1 = 0 by omega]
    rfl

theorem wrap_eq {limit : Nat} {n : Int} (limits : 2 ^ small = limit) (low : -limit ≤ n * 2)
    (high : n * 2 < limit) : wrap small n = n := by
  rw [wrap, limits]
  exact Int.bmod_eq_of_le_mul_two low high

theorem pad_denied (size : Nat) (c : UChar) : pad small size false c width = ([], width) := by
  simp [pad]

theorem pad_allowed {limit size : Nat} {c : UChar} (limits : 2 ^ small = limit)
    (low : -limit ≤ (width - size) * 2) (high : (width - size) * 2 < limit) :
    (pad small size true c width).1 = List.replicate (width - size).toNat c ∧
      (pad small size true c width).2 ≤ 0 ∧
        (0 ≤ width → -size ≤ (pad small size true c width).2) := by
  rw [pad, wrap_eq limits low high]
  rcases eq_or_ne width 0 with rfl | some
  · simp
  · rw [if_pos ⟨rfl, some⟩]
    dsimp only
    split
    · exact ⟨rfl, le_rfl, fun _ => by dsimp only; omega⟩
    · rename_i none
      rw [Int.toNat_of_nonpos (not_lt.mp none)]
      exact ⟨rfl, not_lt.mp none, fun _ => by dsimp only; omega⟩

variable {d : Directive} {value : ULong}

theorem value_eq : (if d.conversion = .d ∧ value.msb then -value else value).toNat =
    if d.conversion = .d then value.toInt.natAbs else value.toNat := by
  have bound := value.isLt
  by_cases signed : d.conversion = .d
  · rw [if_pos signed, BitVec.toInt_eq_msb_cond]
    cases top : value.msb
    · simp
    · have low : 2 ^ 31 ≤ value.toNat := by
        rw [BitVec.msb_eq_decide] at top
        exact of_decide_eq_true top
      simp only [signed, true_and, if_true, BitVec.toNat_neg]
      omega
  · simp [signed]

theorem base_many (conversion : Conversion) : 8 ≤ conversion.base := by
  cases conversion <;> simp [Conversion.base]

theorem length_numeralOf (d : Directive) (value : ULong) : (d.numeralOf value).length ≤ 11 := by
  have many := base_many d.conversion
  have bound := BitVec.isLt (if d.conversion = .d ∧ value.msb then -value else value)
  rw [Directive.numeralOf, ← value_eq, numeral, List.length_map, List.length_reverse, digitsOf]
  generalize BitVec.toNat _ = n at bound ⊢
  split
  · decide
  · rw [Nat.digits_length_le_iff (by omega)]
    calc
      n < 8 ^ 11 := bound.trans (by decide)
      _ ≤ d.conversion.base ^ 11 := Nat.pow_le_pow_left many 11

theorem digits_eq (width : Int) :
    (ksprintn d.conversion.base
      (if d.conversion = .d ∧ value.msb then -value else value).toNat width).reverse.map
        (shown d.conversion) =
      List.replicate (width.toNat - (d.numeralOf value).length) 0x30 ++ d.numeralOf value := by
  have many := base_many d.conversion
  have zero : shown d.conversion 0x30 = 0x30 := if_neg fun letter => absurd letter.2 (by decide)
  rw [ksprintn_eq (by omega), value_eq, Directive.numeralOf, numeral, List.reverse_append,
    List.reverse_replicate, List.map_append, List.map_replicate, zero, ← List.map_reverse,
    List.map_map, List.length_map, List.length_reverse]
  rfl

theorem number_eq (some : 8 ≤ small) (fits : d.width * 2 < 2 ^ small)
    (fits' : d.precision.getD 0 * 2 < 2 ^ small) :
    ∃ a m b, (number small d value).1 = List.replicate a 0x20 ++ (d.neg value ++ (d.markOf value ++
      (List.replicate (d.precision.getD 0 - 32 + m +
        (min (d.precision.getD 0) 32 - (d.numeralOf value).length)) 0x30 ++
          (d.numeralOf value ++ List.replicate b 0x20)))) ∧
      a + m + b = d.width - ((d.neg value).length + (d.markOf value).length +
        max (min (d.precision.getD 0) 32) (d.numeralOf value).length) ∧
      (m ≠ 0 → d.ladjust = false ∧ d.zero = true ∧ d.precision = none) ∧
      (number small d value).2 = wrap small (number small d value).1.length := by
  obtain ⟨limit, limits⟩ : ∃ limit, 2 ^ small = limit := ⟨_, rfl⟩
  have wide : 2 ^ 8 ≤ limit := limits ▸ Nat.pow_le_pow_right (by decide) some
  rw [limits] at fits fits'
  have few := length_numeralOf d value
  have read : (d.precision.map fun n : Nat => wrap small n).getD (-1) = d.precision.getD 0 ∨
      (d.precision.map fun n : Nat => wrap small n).getD (-1) = -1 ∧ d.precision.getD 0 = 0 := by
    cases precision : d.precision with
    | none => exact .inr ⟨rfl, rfl⟩
    | some n =>
      rw [precision] at fits'
      dsimp only [Option.getD_some] at fits'
      exact .inl (wrap_eq limits (by omega) (by omega))
  rw [number]
  dsimp only
  generalize (d.precision.map fun n : Nat => wrap small n).getD (-1) = dwidth at *
  generalize d.precision.getD 0 = precision at *
  have extra : (if 33 ≤ dwidth then wrap small (dwidth - 33 + 1) else 0).toNat =
      precision - 32 := by
    split
    · rw [wrap_eq limits (by omega) (by omega)]
      omega
    · omega
  have digits := @digits_eq d value (if 33 ≤ dwidth then 32 else dwidth)
  have narrow : (if 33 ≤ dwidth then 32 else dwidth).toNat = min precision 32 := by
    split <;> omega
  have length := congrArg List.length digits
  rw [List.length_map, List.length_reverse, List.length_append, List.length_replicate, narrow]
    at length
  rw [digits, extra, narrow, wrap_eq limits (by omega) (by omega), length]
  have short : (d.neg value).length ≤ 1 ∧ (d.markOf value).length ≤ 2 := by
    constructor
    · rw [Directive.neg]
      split_ifs <;> simp
    · rw [Directive.markOf]
      cases d.conversion <;> split <;> simp [mark]
  generalize sized : min precision 32 - (d.numeralOf value).length + (d.numeralOf value).length +
    (d.markOf value).length + (d.neg value).length = size
  obtain ⟨padded, nonpos, low⟩ :=
    @pad_allowed small d.width limit size 0x20 limits (by omega) (by omega)
  rw [Int.toNat_sub] at padded
  cases d.ladjust
  · cases zeros : d.zero && d.precision.isNone
    · have behind := (@pad_allowed small (pad small size true 0x20 d.width).2 limit size 0x20 limits
        (by omega) (by omega)).1
      rw [Int.toNat_of_nonpos (by omega)] at behind
      refine ⟨d.width - size, 0, 0, ?_, by omega, fun some => absurd rfl some, rfl⟩
      simp only [Bool.not_false, Bool.true_and, Bool.false_eq_true, if_false, padded, behind,
        pad_denied]
      simp [List.replicate_add, -List.replicate_append_replicate]
    · have middle := (@pad_allowed small d.width limit size 0x30 limits (by omega) (by omega)).1
      rw [Int.toNat_sub] at middle
      obtain ⟨zero, none⟩ := Bool.and_eq_true_iff.mp zeros
      refine ⟨0, d.width - size, 0, ?_, by omega,
        fun _ => ⟨rfl, zero, Option.isNone_iff_eq_none.mp none⟩, rfl⟩
      simp only [Bool.not_false, Bool.not_true, Bool.and_false, if_true, middle, pad_denied]
      simp [List.replicate_add, -List.replicate_append_replicate]
  · refine ⟨0, 0, d.width - size, ?_, by omega, fun some => absurd rfl some, rfl⟩
    simp only [Bool.not_true, Bool.false_and, padded, pad_denied]
    simp [List.replicate_add, -List.replicate_append_replicate]

theorem neg_eq (signed : ¬(d.conversion = .d ∧ d.plus ∧ value = 0)) :
    d.neg value = d.signOf value := by
  rw [Directive.neg, Directive.signOf]
  by_cases conversion : d.conversion = .d
  · rcases eq_or_ne value 0 with rfl | some
    · simp_all
    · rw [if_pos ⟨conversion, some⟩, if_pos conversion]
  · simp [conversion]

theorem number_exact_iff (some : 8 ≤ small) (d : Directive) (value : ULong) :
    d.Exact value small ↔ d.Fits value small := by
  have few := length_numeralOf d value
  constructor
  · rintro ⟨⟨a, z, b, form, -⟩, length, returned⟩
    have counted : max d.width (d.plain value) * 2 < 2 ^ small := by
      have less := @Int.bmod_lt (number small d value).1.length (2 ^ small) (Nat.two_pow_pos _)
      have kept : Int.bmod (number small d value).1.length (2 ^ small) =
          (number small d value).1.length := returned
      rw [kept, length] at less
      generalize 2 ^ small = limit at less ⊢
      omega
    rw [Directive.plain] at counted length
    obtain ⟨a', m, b', text, padding, -, -⟩ := @number_eq small d value some (by omega) (by omega)
    have signed : ¬(d.conversion = .d ∧ d.plus ∧ value = 0) := by
      rintro ⟨conversion, plus, rfl⟩
      have member : (0x2b : UChar) ∈ (number small d 0).1 := by
        rw [form]
        simp [Directive.signOf, conversion, plus]
      rw [text] at member
      simp [Directive.neg, Directive.markOf, Directive.numeralOf, numeral, digitsOf, conversion,
        List.mem_replicate] at member
      exact absurd member (by decide)
    rw [text, neg_eq signed] at length
    rw [neg_eq signed] at padding
    simp only [List.length_append, List.length_replicate] at length
    exact ⟨signed, by omega, counted⟩
  · rintro ⟨signed, zeros, counted⟩
    rw [Directive.plain] at counted
    obtain ⟨a, m, b, text, padding, -, count⟩ := @number_eq small d value some (by omega) (by omega)
    rw [neg_eq signed] at text padding
    have length : (number small d value).1.length = max d.width (d.plain value) := by
      rw [text, Directive.plain]
      simp only [List.length_append, List.length_replicate]
      omega
    refine ⟨⟨a, _, b, text, by omega⟩, length, ?_⟩
    rw [count, wrap_eq rfl (by omega) (by rw [length, Directive.plain]; omega)]

theorem number_exact_ten : Directive.Exact ⟨false, false, false, false, 10, none, .d⟩ 10 32 ↔
    Directive.Fits ⟨false, false, false, false, 10, none, .d⟩ 10 32 :=
  number_exact_iff (by decide) _ _

theorem plus_zero_not_exact : ¬∀ small d value, 8 ≤ small → Directive.Exact d value small := by
  intro exact
  have length := (exact 32 ⟨false, false, false, true, 0, none, .d⟩ 0 (by decide)).length
  obtain ⟨a, m, b, text, padding, -, -⟩ :=
    @number_eq 32 ⟨false, false, false, true, 0, none, .d⟩ 0 (by decide) (by decide) (by decide)
  rw [text] at length
  simp [Directive.neg, Directive.signOf, Directive.markOf, Directive.plain, Directive.numeralOf,
    numeral, digitsOf] at length padding
  omega

end Uos.Printf
