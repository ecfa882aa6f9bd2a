import Mathlib.Algebra.Order.Ring.Nat
import Mathlib.Data.List.Basic
import Mathlib.Logic.Function.Basic

/-!
# Lines of cells

An array holds lines of `w` cells each, one after the other.  `lines` are the first `h` of them: a cell that is
written changes one place of one line, and when every line but the last takes the cells of the next one, the
first line goes and the others move up.
-/

namespace Grids

variable {α : Type} {w h x y x' y' : Nat} {cells cells' : Nat → α} {a : α}

/-- The line number `y`. -/
def line (w : Nat) (cells : Nat → α) (y : Nat) : List α := (List.range w).map fun x => cells (y * w + x)

/-- The first `h` lines. -/
def lines (w h : Nat) (cells : Nat → α) : List (List α) := (List.range h).map (line w cells)

theorem length_lines : (lines w h cells).length = h := by rw [lines, List.length_map, List.length_range]

theorem getElem_lines (hy : y < (lines w h cells).length) : (lines w h cells)[y] = line w cells y := by
  simp only [lines, List.getElem_map, List.getElem_range]

/-- The place of a cell is behind the lines above it. -/
theorem place_lt (hx : x < w) (hy : y < h) : y * w + x < h * w := by
  calc y * w + x < y * w + w := Nat.add_lt_add_left hx _
    _ = (y + 1) * w := (Nat.succ_mul y w).symm
    _ ≤ h * w := Nat.mul_le_mul_right w hy

/-- No two cells have the same place. -/
theorem place_inj (hx : x < w) (hx' : x' < w) : y * w + x = y' * w + x' ↔ y = y' ∧ x = x' := by
  constructor
  · intro heq
    have hw : 0 < w := by omega
    have hline (y x : Nat) (hx : x < w) : (y * w + x) / w = y := by
      rw [Nat.mul_comm, Nat.mul_add_div hw, Nat.div_eq_of_lt hx, Nat.add_zero]
    obtain rfl : y = y' := by rw [← hline y x hx, heq, hline y' x' hx']
    exact ⟨rfl, Nat.add_left_cancel heq⟩
  · rintro ⟨rfl, rfl⟩
    rfl

theorem line_congr (hcells : ∀ x, x < w → cells' (y' * w + x) = cells (y * w + x)) :
    line w cells' y' = line w cells y :=
  List.map_congr_left fun x hx => hcells x (List.mem_range.1 hx)

theorem line_eq_replicate (hcells : ∀ x, x < w → cells (y * w + x) = a) :
    line w cells y = List.replicate w a := by
  refine List.eq_replicate_iff.2 ⟨by rw [line, List.length_map, List.length_range], fun b hb => ?_⟩
  obtain ⟨x, hx, rfl⟩ := List.mem_map.1 hb
  exact hcells x (List.mem_range.1 hx)

/-- A cell that is written changes one place of its line. -/
theorem line_update : line w (Function.update cells (y * w + x) a) y = (line w cells y).set x a := by
  refine List.ext_getElem (by simp [line]) fun i hi _ => ?_
  have hi : i < w := by simpa [line] using hi
  rw [List.getElem_set]
  simp only [line, List.getElem_map, List.getElem_range, Function.update_apply]
  by_cases hix : i = x
  · rw [if_pos (by rw [hix]), if_pos hix.symm]
  · rw [if_neg fun heq => hix (Nat.add_left_cancel heq), if_neg (Ne.symm hix)]

theorem lines_update (hx : x < w) :
    lines w h (Function.update cells (y * w + x) a) = (lines w h cells).modify y fun l => l.set x a := by
  refine List.ext_getElem (by rw [List.length_modify, length_lines, length_lines]) fun i hi hi' => ?_
  rw [getElem_lines, List.getElem_modify, getElem_lines]
  by_cases hiy : y = i
  · subst hiy
    rw [if_pos rfl, line_update]
  · rw [if_neg hiy]
    refine line_congr fun x' hx' => ?_
    exact Function.update_of_ne (fun heq => hiy ((place_inj hx' hx).1 heq).1.symm) _ _

/-- The lines move up. -/
theorem lines_scroll (hup : ∀ y, y < h → ∀ x, x < w → cells' (y * w + x) = cells ((y + 1) * w + x))
    (hlast : ∀ x, x < w → cells' (h * w + x) = a) :
    lines w (h + 1) cells' = (lines w (h + 1) cells).tail ++ [List.replicate w a] := by
  have htail : (lines w (h + 1) cells).tail = (List.range h).map fun y => line w cells (y + 1) := by
    rw [lines, List.range_succ_eq_map, List.map_cons, List.tail_cons, List.map_map]
    rfl
  rw [htail, lines, List.range_succ, List.map_append, List.map_singleton, line_eq_replicate hlast]
  congr 1
  exact List.map_congr_left fun y hy => line_congr (hup y (List.mem_range.1 hy))

end Grids
