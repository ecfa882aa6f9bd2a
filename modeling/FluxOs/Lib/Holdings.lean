import Mathlib.Data.List.Nodup
import Mathlib.Logic.Function.Basic

/-!
# Resources that are held once

Every owner has a list of resources.  `HeldOnce` says that what is allocated is what is held, by one owner
and at one position: nothing leaks, and nothing is held twice.  A resource is stored when it is allocated,
and it is taken from its owner when it is released.
-/

namespace Holdings

variable {ι ρ : Type}

/-- Every allocated resource is held by one owner, once. -/
structure HeldOnce (held : ι → List ρ) (alloc : ρ → Prop) : Prop where
  nodup : ∀ i, (held i).Nodup
  disjoint : ∀ i j r, r ∈ held i → r ∈ held j → i = j
  alloc_iff : ∀ r, alloc r ↔ ∃ i, r ∈ held i

namespace HeldOnce

variable {held held' : ι → List ρ} {alloc alloc' : ρ → Prop} {i : ι} {r : ρ} {l : List ρ}

theorem empty (halloc : ∀ r, ¬ alloc r) : HeldOnce (fun _ : ι => []) alloc :=
  ⟨fun _ => List.nodup_nil, fun _ _ _ h => absurd h List.not_mem_nil,
    fun r => iff_of_false (halloc r) fun ⟨_, h⟩ => List.not_mem_nil h⟩

theorem congr (h : HeldOnce held alloc) (hheld : ∀ i, held' i = held i) (halloc : ∀ r, alloc' r ↔ alloc r) :
    HeldOnce held' alloc' := by
  obtain rfl : held' = held := funext hheld
  exact ⟨h.nodup, h.disjoint, fun r => (halloc r).trans (h.alloc_iff r)⟩

theorem alloc_of_mem (h : HeldOnce held alloc) (hr : r ∈ held i) : alloc r := (h.alloc_iff r).2 ⟨i, hr⟩

/-- Two positions with the same resource are the same. -/
theorem position_inj (h : HeldOnce held alloc) {j : ι} {m n : Nat} (hm : (held i)[m]? = some r)
    (hn : (held j)[n]? = some r) : i = j ∧ m = n := by
  obtain rfl := h.disjoint i j r (List.mem_of_getElem? hm) (List.mem_of_getElem? hn)
  obtain ⟨hlt, hget⟩ := List.getElem?_eq_some_iff.1 hm
  have heq : (held i)[m]? = (held i)[n]? := hm.trans hn.symm
  exact ⟨rfl, (List.getElem?_inj hlt (h.nodup i)).1 heq⟩

/-- An allocated resource has one position. -/
theorem existsUnique_position (h : HeldOnce held alloc) (hr : alloc r) :
    ∃! p : ι × Nat, (held p.1)[p.2]? = some r := by
  obtain ⟨i, hi⟩ := (h.alloc_iff r).1 hr
  obtain ⟨n, hn⟩ := List.mem_iff_getElem?.1 hi
  refine ⟨(i, n), hn, ?_⟩
  rintro ⟨j, m⟩ hm
  obtain ⟨rfl, rfl⟩ := h.position_inj hm hn
  rfl

/-! ## Moving resources -/

/-- A resource that was free is stored with an owner. -/
theorem store (h : HeldOnce held alloc) (hfree : ¬ alloc r) (hi : held' i = held i ++ [r])
    (hother : ∀ j, j ≠ i → held' j = held j) (halloc : ∀ s, alloc' s ↔ alloc s ∨ s = r) :
    HeldOnce held' alloc' := by
  have hmem (j : ι) (s : ρ) : s ∈ held' j ↔ s ∈ held j ∨ j = i ∧ s = r := by
    by_cases hj : j = i
    · subst hj
      simp [hi]
    · simp [hother j hj, hj]
  have hnot (j : ι) : r ∉ held j := fun hr => hfree (h.alloc_of_mem hr)
  refine ⟨fun j => ?_, fun j k s hs hs' => ?_, fun s => ?_⟩
  · by_cases hj : j = i
    · subst hj
      rw [hi, List.nodup_append]
      refine ⟨h.nodup j, List.nodup_singleton r, fun a ha b hb => ?_⟩
      obtain rfl := List.mem_singleton.1 hb
      rintro rfl
      exact hnot j ha
    · rw [hother j hj]
      exact h.nodup j
  · rw [hmem] at hs hs'
    obtain hs | ⟨rfl, rfl⟩ := hs
    · obtain hs' | ⟨rfl, rfl⟩ := hs'
      · exact h.disjoint j k s hs hs'
      · exact absurd hs (hnot j)
    · obtain hs' | ⟨rfl, -⟩ := hs'
      · exact absurd hs' (hnot k)
      · rfl
  · rw [halloc, h.alloc_iff]
    simp only [hmem, exists_or, exists_eq_left]

/-- An owner gives up the first resources of its list, which are released. -/
theorem release (h : HeldOnce held alloc) (hi : held i = l ++ held' i)
    (hother : ∀ j, j ≠ i → held' j = held j) (halloc : ∀ s, alloc' s ↔ alloc s ∧ s ∉ l) :
    HeldOnce held' alloc' := by
  have hnodup := h.nodup i
  rw [hi, List.nodup_append] at hnodup
  obtain ⟨-, hrest, hapart⟩ := hnodup
  have hmem (j : ι) (s : ρ) : s ∈ held' j ↔ s ∈ held j ∧ s ∉ l := by
    by_cases hj : j = i
    · subst hj
      rw [hi, List.mem_append]
      refine ⟨fun hs => ⟨.inr hs, fun hl => hapart s hl s hs rfl⟩, fun ⟨hs, hl⟩ => hs.resolve_left hl⟩
    · rw [hother j hj]
      refine ⟨fun hs => ⟨hs, fun hl => hj ?_⟩, fun hs => hs.1⟩
      exact h.disjoint j i s hs (by rw [hi]; exact List.mem_append_left _ hl)
  refine ⟨fun j => ?_, fun j k s hs hs' => ?_, fun s => ?_⟩
  · by_cases hj : j = i
    · subst hj
      exact hrest
    · rw [hother j hj]
      exact h.nodup j
  · exact h.disjoint j k s ((hmem j s).1 hs).1 ((hmem k s).1 hs').1
  · rw [halloc, h.alloc_iff]
    simp only [hmem, exists_and_right]

end HeldOnce

end Holdings
