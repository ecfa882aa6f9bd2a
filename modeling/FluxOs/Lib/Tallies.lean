import Mathlib.Algebra.BigOperators.Group.Finset.Piecewise
import Mathlib.Data.Fintype.Card

/-!
# Tallies

How many places of a table hold something with a property.  A write to one place changes the tally by what the
old and the new contents count for.
-/

namespace Tallies

variable {ι α : Type} [Fintype ι] {P Q : α → Prop} [DecidablePred P] [DecidablePred Q]
  {f g : ι → α} {i : ι} {x : α}

/-- The number of places whose contents have the property. -/
def tally (P : α → Prop) [DecidablePred P] (f : ι → α) : Nat := (Finset.univ.filter fun i => P (f i)).card

/-- What something counts for. -/
def weight (P : α → Prop) [DecidablePred P] (x : α) : Nat := if P x then 1 else 0

theorem weight_of (hx : P x) : weight P x = 1 := if_pos hx

theorem weight_of_not (hx : ¬P x) : weight P x = 0 := if_neg hx

theorem tally_eq_sum (f : ι → α) : tally P f = ∑ i, weight P (f i) := Finset.card_filter ..

theorem tally_congr (h : ∀ i, P (f i) ↔ P (g i)) : tally P f = tally P g := by
  unfold tally
  simp only [h]

variable (P) in
/-- A write takes away what was counted and adds what is written. -/
theorem tally_update [DecidableEq ι] (f : ι → α) (i : ι) (x : α) :
    tally P (Function.update f i x) + weight P (f i) = tally P f + weight P x := by
  have hrest : ∑ j ∈ Finset.univ.erase i, weight P (Function.update f i x j) =
      ∑ j ∈ Finset.univ.erase i, weight P (f j) := by
    apply Finset.sum_congr rfl
    intro j hj
    rw [Function.update_of_ne (Finset.ne_of_mem_erase hj)]
  rw [tally_eq_sum, tally_eq_sum, ← Finset.add_sum_erase _ _ (Finset.mem_univ i),
    ← Finset.add_sum_erase _ (fun j => weight P (f j)) (Finset.mem_univ i), hrest, Function.update_self]
  omega

theorem tally_pos (hi : P (f i)) : 0 < tally P f := by
  apply Finset.card_pos.2
  exact ⟨i, by simpa using hi⟩

/-- A table with a place that does not count is not full. -/
theorem tally_lt (hi : ¬P (f i)) : tally P f < Fintype.card ι := by
  apply Finset.card_lt_univ_of_notMem (x := i)
  simpa using hi

theorem tally_mono (h : ∀ x, P x → Q x) : tally P f ≤ tally Q f := by
  apply Finset.card_le_card
  intro i hi
  simp only [Finset.mem_filter, Finset.mem_univ, true_and] at hi ⊢
  exact h _ hi

end Tallies
