import Mathlib.Data.List.TakeWhile
import Uos.Net.Bytes

/-!
# Strings that are scanned

`scan_string` of `stream/vscanf.c` on a stream of `stropen`, which is the rest of a string.  The
loops test the end of the stream, and not the character in hand.
-/

namespace Uos.Scanf

/-- The type of a conversion, and the pattern of `%[`. -/
inductive StringType
  | s
  | bracket (pattern : List UChar)
  | c

/-- `ISSPACE` -/
def isSpace (c : UChar) : Bool :=
  c == 0x20 || c == 0x09 || c == 0x0a

/-- The loop of `match_pattern`, on `next` and what is behind it. -/
def matchLoop (sym : UChar) (inversion : Bool) : List UChar → Bool
  | [] => false
  | next :: pattern =>
    if next = 0x5d then inversion
    else
      let within (cend : UChar) := next ≤ sym && sym ≤ cend
      match pattern with
      | dash :: cend :: rest =>
        if dash = 0x2d then
          if within cend then !inversion
          else if cend = 0x5d then matchLoop sym inversion (dash :: cend :: rest)
          else matchLoop sym inversion rest
        else if within next then !inversion
        else matchLoop sym inversion (dash :: cend :: rest)
      | [dash] =>
        if dash = 0x2d then false
        else if within next then !inversion
        else matchLoop sym inversion [dash]
      | [] => if within next then !inversion else false

/-- `match_pattern`.  The pattern is the format up to its end. -/
def matchPattern (sym : UChar) : List UChar → Bool
  | [] => false
  | next :: pattern =>
    if next = 0x5e then matchLoop sym true pattern else matchLoop sym false (next :: pattern)

/-- The test of a character in the second loop of `scan_string`. -/
def taken (ch : UChar) : StringType → Bool
  | .s => !isSpace ch
  | .bracket pattern => matchPattern ch pattern
  | .c => true

/-- The first loop of `scan_string`: `ch`, and the stream behind it. -/
def skip (type : StringType) (ch : UChar) : List UChar → UChar × List UChar
  | [] => (ch, [])
  | next :: stream =>
    match type with
    | .s => if isSpace next then skip .s next stream else (next, stream)
    | _ => (next, stream)

/-- The second loop, with `len` as the number of characters after the next one: what is stored, and
the stream. -/
def scanLoop (type : StringType) : Nat → UChar → List UChar → List UChar × List UChar
  | _, _, [] => ([], [])
  | len, ch, next :: stream =>
    if taken ch type then
      match len with
      | 0 => ([ch], next :: stream)
      | len + 1 => ((scanLoop type len next stream).1.cons ch, (scanLoop type len next stream).2)
    else ([], next :: stream)

/-- `*ptr++ = '\0'`, if something was stored. -/
def terminated (type : StringType) (stored : List UChar) : List UChar :=
  match type, stored with
  | .c, _ | _, [] => stored
  | _, _ => stored ++ [0]

/-- `scan_string` with a place to store: the bytes there, and the stream.  A width of `len + 1`
characters is given. -/
def scanString (type : StringType) (len : Nat) (stream : List UChar) : List UChar × List UChar :=
  let (ch, stream) := skip type 0 stream
  let (stored, stream) := scanLoop type len ch stream
  (terminated type stored, stream)

/-- The ranges of a class, up to its bracket.  A dash before the bracket stands for itself. -/
def ranges : List UChar → Option (List (UChar × UChar))
  | [] => none
  | c :: text =>
    if c = 0x5d then some []
    else
      match text with
      | dash :: d :: rest =>
        if dash = 0x2d ∧ d ≠ 0x5d then (ranges rest).map ((c, d) :: ·)
        else (ranges (dash :: d :: rest)).map ((c, c) :: ·)
      | [last] => (ranges [last]).map ((c, c) :: ·)
      | [] => none

def inClass (c : UChar) (pattern : List UChar) : Bool :=
  let inverted := pattern.head? == some 0x5e
  match ranges (if inverted then pattern.tail else pattern) with
  | none => false
  | some pairs => inverted != pairs.any fun (first, last) => first ≤ c && c ≤ last

def fits (ch : UChar) : StringType → Bool
  | .s => !isSpace ch
  | .bracket pattern => inClass ch pattern
  | .c => true

def lead (type : StringType) (input : List UChar) : List UChar :=
  match type with
  | .s => input.dropWhile isSpace
  | _ => input

/-- The longest prefix of at most `len + 1` characters that fit. -/
def field (type : StringType) (len : Nat) (input : List UChar) : List UChar :=
  ((lead type input).take (len + 1)).takeWhile (fits · type)

def StringRight (type : StringType) (len : Nat) (input : List UChar) : Prop :=
  scanString type len input = (terminated type (field type len input),
    (lead type input).drop (field type len input).length)

variable {type : StringType} {len : Nat} {ch : UChar} {input stream : List UChar}

theorem skip_eq (type : StringType) (ch : UChar) (input : List UChar) :
    (lead type input = [] ∧ ∃ last, skip type ch input = (last, [])) ∨
      ∃ first stream, lead type input = first :: stream ∧
        skip type ch input = (first, stream) := by
  induction input generalizing ch with
  | nil =>
    left
    cases type with
    | s | bracket | c => exact ⟨rfl, ch, rfl⟩
  | cons next stream ih =>
    cases type with
    | s =>
      cases space : isSpace next
      · exact .inr ⟨next, stream, by simp [lead, space], by simp [skip, space]⟩
      · simpa [lead, skip, space] using ih next
    | bracket | c => exact .inr ⟨next, stream, rfl, rfl⟩

theorem scanLoop_cases (type : StringType) (len : Nat) (ch : UChar) (stream : List UChar) :
    (len < stream.length ∧ (∀ x ∈ (ch :: stream).take (len + 1), taken x type) ∧
      scanLoop type len ch stream =
        ((ch :: stream).take (len + 1), (ch :: stream).drop (len + 1))) ∨
    (¬(len < stream.length ∧ ∀ x ∈ (ch :: stream).take (len + 1), taken x type) ∧
      (scanLoop type len ch stream).1.length + (scanLoop type len ch stream).2.length <
        (ch :: stream).length) := by
  induction stream generalizing len ch with
  | nil => exact .inr ⟨fun more => absurd more.1 (Nat.not_lt_zero _), by simp [scanLoop]⟩
  | cons next stream ih =>
    cases own : taken ch type
    · have stops : scanLoop type len ch (next :: stream) = ([], next :: stream) := by
        cases len <;> simp [scanLoop, own]
      refine .inr ⟨fun all => ?_, by simp [stops]⟩
      have first := all.2 ch (by simp)
      simp [own] at first
    · cases len with
      | zero => simp [scanLoop, own]
      | succ len =>
        have goes : scanLoop type (len + 1) ch (next :: stream) =
            (ch :: (scanLoop type len next stream).1, (scanLoop type len next stream).2) := by
          simp [scanLoop, own]
        have more : (∀ x ∈ (ch :: next :: stream).take (len + 2), taken x type) ↔
            ∀ x ∈ (next :: stream).take (len + 1), taken x type := by
          rw [List.take_succ_cons, List.forall_mem_cons, own]
          exact and_iff_right rfl
        rw [more, goes, List.length_cons, Nat.succ_lt_succ_iff]
        rcases ih len next with ⟨inside, all, loop⟩ | ⟨stops, less⟩
        · rw [loop]
          exact .inl ⟨inside, all, rfl⟩
        · refine .inr ⟨stops, ?_⟩
          simp only [List.length_cons] at less ⊢
          omega

theorem terminated_injective (type : StringType) : Function.Injective (terminated type) := by
  intro stored stored' same
  cases type <;> cases stored <;> cases stored' <;> simp_all [terminated]

end Uos.Scanf
