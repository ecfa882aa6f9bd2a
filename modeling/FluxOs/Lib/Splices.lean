import Mathlib.Data.List.Basic

/-!
# Ranges of a list

A range of a list is read and overwritten as far as the list reaches: what lies behind its end is not there.
-/

namespace Splices

variable {α : Type} (l : List α) (off n : Nat) (xs : List α)

/-- The part of the list in a range. -/
def slice : List α := (l.drop off).take n

/-- The list with `xs` from place `off` on, as far as it reaches. -/
def splice : List α := l.take off ++ xs.take (l.length - off) ++ l.drop (off + xs.length)

@[simp]
theorem length_slice : (slice l off n).length = min n (l.length - off) := by
  rw [slice, List.length_take, List.length_drop]

@[simp]
theorem length_splice : (splice l off xs).length = l.length := by
  simp only [splice, List.length_append, List.length_take, List.length_drop]
  omega

variable {l off n xs} {i : Nat}

theorem getElem?_splice_of_inside (ha : off ≤ i) (hi : i < l.length) (hxs : i < off + xs.length) :
    (splice l off xs)[i]? = xs[i - off]? := by
  have htake : (l.take off).length = off := by
    rw [List.length_take]
    omega
  have hmid : i - off < (xs.take (l.length - off)).length := by
    rw [List.length_take]
    omega
  rw [splice, List.append_assoc, List.getElem?_append_right (htake.symm ▸ ha), htake,
    List.getElem?_append_left hmid, List.getElem?_take_of_lt (by omega)]

theorem getElem?_splice_of_outside (h : i < off ∨ off + xs.length ≤ i) : (splice l off xs)[i]? = l[i]? := by
  by_cases hi : i < l.length
  · rw [splice, List.append_assoc]
    rcases h with h | h
    · rw [List.getElem?_append_left (by rw [List.length_take]; omega), List.getElem?_take_of_lt h]
    · have htake : (l.take off).length = off := by
        rw [List.length_take]
        omega
      have hmid : (xs.take (l.length - off)).length = xs.length := by
        rw [List.length_take]
        omega
      have hplace : off + xs.length + (i - off - xs.length) = i := by omega
      rw [List.getElem?_append_right (htake.symm ▸ (by omega : off ≤ i)), htake,
        List.getElem?_append_right (hmid.symm ▸ (by omega : xs.length ≤ i - off)), hmid, List.getElem?_drop,
        hplace]
  · rw [List.getElem?_eq_none (by rw [length_splice]; omega), List.getElem?_eq_none (by omega)]

theorem slice_of_le (h : l.length ≤ off) : slice l off n = [] := by
  rw [slice, List.drop_eq_nil_of_le h, List.take_nil]

theorem splice_nil : splice l off [] = l := by
  rw [splice, List.take_nil, List.append_nil, List.length_nil, Nat.add_zero, List.take_append_drop]

theorem splice_of_le (h : l.length ≤ off) : splice l off xs = l := by
  refine List.ext_getElem? fun i => ?_
  by_cases hi : i < off
  · exact getElem?_splice_of_outside (.inl hi)
  · rw [List.getElem?_eq_none (by rw [length_splice]; omega), List.getElem?_eq_none (by omega)]

/-- What was just written is read back, as far as the list reaches. -/
theorem slice_splice (hn : n ≤ xs.length) :
    slice (splice l off xs) off n = xs.take (min n (l.length - off)) := by
  refine List.ext_getElem? fun i => ?_
  by_cases hi : i < n ∧ off + i < l.length
  · rw [slice, List.getElem?_take_of_lt hi.1, List.getElem?_drop, List.getElem?_take_of_lt (by omega),
      getElem?_splice_of_inside (by omega) hi.2 (by omega), Nat.add_sub_cancel_left]
  · rw [List.getElem?_eq_none (by rw [length_slice, length_splice]; omega),
      List.getElem?_eq_none (by rw [List.length_take]; omega)]

end Splices
