import Mathlib.Data.List.Basic

/-!
# Sequences of symbols with flags

A flag ends a run of symbols.  The complete runs of a sequence, and the one that has not ended.
-/

namespace Uos
namespace Framing

variable {Symbol : Type*} [DecidableEq Symbol] (flag : Symbol)

/-- The complete runs, and the symbols behind the last flag. -/
structure Runs (Symbol : Type*) where
  complete : List (List Symbol) := []
  rest : List Symbol := []

/-- One symbol more. -/
def Runs.feed (runs : Runs Symbol) (symbol : Symbol) : Runs Symbol :=
  if symbol = flag then { complete := runs.complete ++ [runs.rest] }
  else { runs with rest := runs.rest ++ [symbol] }

/-- The runs of a sequence. -/
def runs (symbols : List Symbol) : Runs Symbol :=
  symbols.foldl (Runs.feed flag) {}

theorem runs_nil : runs flag [] = {} := rfl

variable (symbols : List Symbol)

theorem runs_snoc (symbol : Symbol) :
    runs flag (symbols ++ [symbol]) = (runs flag symbols).feed flag symbol := by
  rw [runs, List.foldl_append]
  rfl

theorem runs_flag :
    runs flag (symbols ++ [flag]) =
      { complete := (runs flag symbols).complete ++ [(runs flag symbols).rest] } := by
  rw [runs_snoc, Runs.feed, if_pos rfl]

theorem runs_other {symbol : Symbol} (other : symbol ≠ flag) :
    runs flag (symbols ++ [symbol]) =
      { runs flag symbols with rest := (runs flag symbols).rest ++ [symbol] } := by
  rw [runs_snoc, Runs.feed, if_neg other]

/-- A sequence without flags makes the last run longer. -/
theorem runs_append {more : List Symbol} (plain : flag ∉ more) :
    runs flag (symbols ++ more) =
      { runs flag symbols with rest := (runs flag symbols).rest ++ more } := by
  induction more generalizing symbols with
  | nil => simp
  | cons symbol more ih =>
    rw [List.mem_cons, not_or] at plain
    have same : symbols ++ symbol :: more = symbols ++ [symbol] ++ more := by simp
    rw [same, ih _ plain.2, runs_other flag symbols (Ne.symm plain.1)]
    simp

end Framing
end Uos
