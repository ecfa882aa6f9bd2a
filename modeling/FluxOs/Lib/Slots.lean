import Mathlib.Data.List.Perm.Basic

/-!
# Tables of slots

A table is a list of slots of which some are in use.  Its contents are the slots in use, in any order: filling
a free slot adds one, clearing a slot in use removes one.
-/

namespace Slots

variable {α : Type} {used : α → Bool} {l : List α} {i : Nat} {x y : α} {f : α → α}

/-- The slots in use. -/
def contents (used : α → Bool) (l : List α) : List α := l.filter used

theorem mem_contents : x ∈ contents used l ↔ x ∈ l ∧ used x = true := List.mem_filter

/-- No slot is in use. -/
theorem contents_eq_nil : contents used l = [] ↔ ∀ x ∈ l, used x = false := by
  simp [contents, List.filter_eq_nil_iff]

/-- A slot is replaced. -/
theorem cons_perm_set (hx : l[i]? = some x) : (y :: l).Perm (x :: l.set i y) := by
  obtain ⟨hi, rfl⟩ := List.getElem?_eq_some_iff.1 hx
  have hi' : i < (l.set i y).length := by rwa [List.length_set]
  have hold := List.getElem_cons_eraseIdx_perm hi
  have hnew := List.getElem_cons_eraseIdx_perm hi'
  rw [List.getElem_set_self, List.eraseIdx_set_eq] at hnew
  calc y :: l
    _ |>.Perm (y :: l[i] :: l.eraseIdx i) := hold.symm.cons y
    _ |>.Perm (l[i] :: y :: l.eraseIdx i) := .swap ..
    _ |>.Perm (l[i] :: l.set i y) := hnew.cons l[i]

/-- A free slot is filled. -/
theorem contents_fill (hx : l[i]? = some x) (hfree : used x = false) (hy : used y = true) :
    (contents used (l.set i y)).Perm (y :: contents used l) := by
  have h := (cons_perm_set (y := y) hx).filter used
  rw [List.filter_cons_of_pos hy, List.filter_cons_of_neg (by simp [hfree])] at h
  exact h.symm

/-- A slot in use is cleared. -/
theorem contents_clear (hx : l[i]? = some x) (hused : used x = true) (hy : used y = false) :
    (contents used l).Perm (x :: contents used (l.set i y)) := by
  have h := (cons_perm_set (y := y) hx).filter used
  rw [List.filter_cons_of_neg (by simp [hy]), List.filter_cons_of_pos hused] at h
  exact h

theorem modify_eq_set (hx : l[i]? = some x) : l.modify i f = l.set i (f x) := by
  rw [List.modify_eq_set_getElem?, hx]
  rfl

/-- The first slot that satisfies a test. -/
theorem getElem?_of_findIdx? {p : α → Bool} (hfind : l.findIdx? p = some i) :
    ∃ x, l[i]? = some x ∧ p x = true := by
  obtain ⟨hi, hp, -⟩ := List.findIdx?_eq_some_iff_getElem.1 hfind
  exact ⟨l[i], List.getElem?_eq_getElem hi, hp⟩

/-- A full table has all its slots in use. -/
theorem contents_of_full (hfull : ∀ x ∈ l, used x = true) : contents used l = l :=
  List.filter_eq_self.2 hfull

end Slots
