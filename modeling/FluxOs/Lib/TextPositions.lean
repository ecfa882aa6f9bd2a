import Mathlib.Data.List.Basic

/-!
# Lines and columns of a text

The line of the place behind a text is one more than its separators, the column one more than the symbols
behind the last separator.  Both are computed from left to right, one symbol at a time.
-/

namespace TextPositions

variable {α : Type} [DecidableEq α] {sep c : α} {text : List α}

/-- The line behind `text`, whose lines end at `sep`. -/
def lineOf (sep : α) (text : List α) : Nat := text.count sep + 1

/-- The column behind `text`. -/
def colOf (sep : α) (text : List α) : Nat := (text.reverse.takeWhile (· ≠ sep)).length + 1

@[simp] theorem lineOf_nil : lineOf sep [] = 1 := rfl

@[simp] theorem colOf_nil : colOf sep [] = 1 := rfl

@[simp] theorem lineOf_concat_sep : lineOf sep (text ++ [sep]) = lineOf sep text + 1 := by
  simp [lineOf]

@[simp] theorem colOf_concat_sep : colOf sep (text ++ [sep]) = 1 := by
  simp [colOf]

theorem lineOf_concat (h : c ≠ sep) : lineOf sep (text ++ [c]) = lineOf sep text := by
  simp [lineOf, h]

theorem colOf_concat (h : c ≠ sep) : colOf sep (text ++ [c]) = colOf sep text + 1 := by
  simp [colOf, h]

omit [DecidableEq α] in
/-- The part of a text in front of a place grows by the symbol at this place. -/
theorem take_succ_of_getElem? {i : Nat} (h : text[i]? = some c) :
    text.take (i + 1) = text.take i ++ [c] := by
  rw [List.take_add_one, h, Option.toList_some]

end TextPositions
