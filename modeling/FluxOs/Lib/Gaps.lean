import Mathlib.Data.List.Chain
import FluxOs.Lib.Tilings

/-!
# Gaps

A gap of a set of positions is a nonempty range of them that no position on either side continues.  A range of
them that shares a position with a gap lies in it.  Where the cells of a tiling that are in some class are not next to
each other, they are the gaps of the positions that they cover.
-/

namespace Gaps

open Tilings

variable {F G : Nat → Prop} {a b i m n t x : Nat}

/-- All positions of the range are in `F`. -/
def Within (F : Nat → Prop) (a n : Nat) : Prop := ∀ i, a ≤ i → i < a + n → F i

/-- A largest range in `F`. -/
structure IsGap (F : Nat → Prop) (a n : Nat) : Prop where
  pos : 0 < n
  within : Within F a n
  left : ∀ i, i + 1 = a → ¬F i
  right : ¬F (a + n)

/-- A range that shares a position with a gap lies in it. -/
theorem IsGap.absorbs (hg : IsGap F a n) (hw : Within F b m) (hi : a ≤ i ∧ i < a + n) (hi' : b ≤ i ∧ i < b + m) :
    a ≤ b ∧ b + m ≤ a + n := by
  refine ⟨?_, ?_⟩
  · by_contra hlt
    exact hg.left (a - 1) (by omega) (hw _ (by omega) (by omega))
  · by_contra hlt
    exact hg.right (hw _ (by omega) (by omega))

/-- Two gaps with a common position are the same. -/
theorem IsGap.unique (hg : IsGap F a n) (hg' : IsGap F b m) (hi : a ≤ i ∧ i < a + n) (hi' : b ≤ i ∧ i < b + m) :
    a = b ∧ n = m := by
  have := hg.absorbs hg'.within hi hi'
  have := hg'.absorbs hg.within hi' hi
  omega

section Take

variable (hg : IsGap F x n) (hG : ∀ i, G i ↔ F i ∧ ¬(x ≤ i ∧ i < x + t))

include hg hG

/-- The rest of a gap after its first `t` positions were taken. -/
theorem IsGap.rest (ht : 0 < t) (hlt : t < n) : IsGap G (x + t) (n - t) := by
  refine ⟨by omega, fun i h₁ h₂ => (hG i).2 ⟨hg.within i (by omega) (by omega), by omega⟩, fun i hi hGi => ?_,
    fun hGi => ?_⟩
  · exact ((hG i).1 hGi).2 (by omega)
  · have hend : x + t + (n - t) = x + n := by omega
    exact hg.right (hend ▸ ((hG _).1 hGi).1)

/-- The other gaps stay. -/
theorem IsGap.kept (htn : t ≤ n) (ha : IsGap F a m) (hax : a ≠ x) : IsGap G a m := by
  refine ⟨ha.pos, fun i h₁ h₂ => (hG i).2 ⟨ha.within i h₁ h₂, fun hi => ?_⟩, fun i hi hGi => ?_, fun hGi => ?_⟩
  · exact hax (ha.unique hg ⟨h₁, h₂⟩ (by omega)).1
  · exact ha.left i hi ((hG i).1 hGi).1
  · exact ha.right ((hG _).1 hGi).1

/-- A gap that does not start in the taken one was there before. -/
theorem IsGap.of_kept (htn : t ≤ n) (ha : IsGap G a m) (hax : ¬(x ≤ a ∧ a < x + n)) : IsGap F a m := by
  have hpos := ha.pos
  have hF : Within F a m := fun i h₁ h₂ => ((hG i).1 (ha.within i h₁ h₂)).1
  refine ⟨hpos, hF, fun i hi hFi => ?_, fun hFi => ?_⟩
  · refine ha.left i hi ((hG i).2 ⟨hFi, fun hix => ?_⟩)
    have hend : a = x + n := by omega
    exact hg.right (hend ▸ hF a (Nat.le_refl _) (by omega))
  · refine ha.right ((hG _).2 ⟨hFi, fun hix => ?_⟩)
    by_cases hstart : a + m = x
    · exact hg.left (a + m - 1) (by omega) (hF _ (by omega) (by omega))
    · have := hg.absorbs (i := a + m - 1) hF (by omega) (by omega)
      omega

/-- When the first `t` positions of a gap are taken, what is left of it is a gap, and the other gaps stay. -/
theorem IsGap.take_iff (ht : 0 < t) (htn : t ≤ n) :
    IsGap G a m ↔ IsGap F a m ∧ a ≠ x ∨ t < n ∧ a = x + t ∧ m = n - t := by
  constructor
  · intro ha
    by_cases hin : x ≤ a ∧ a < x + n
    · have hfirst := ((hG a).1 (ha.within a (Nat.le_refl _) (Nat.lt_add_of_pos_right ha.pos))).2
      have hlt : t < n := by omega
      have hpos := ha.pos
      obtain ⟨hstart, hsize⟩ := ha.unique (hg.rest hG ht hlt) (i := a) (by omega) (by omega)
      exact .inr ⟨hlt, hstart, hsize⟩
    · exact .inl ⟨hg.of_kept hG htn ha hin, fun hax => hin (by omega)⟩
  · rintro (⟨ha, hax⟩ | ⟨hlt, rfl, rfl⟩)
    · exact hg.kept hG htn ha hax
    · exact hg.rest hG ht hlt

end Take

/-! ## The gaps between cells -/

variable {β : Type} {start stop : β → Nat} {l : List β} {p : β → Bool} {e y : Nat} {c : β}

/-- The positions of the cells in the class. -/
def Covered (start stop : β → Nat) (p : β → Bool) (l : List β) (i : Nat) : Prop :=
  ∃ c ∈ l, p c = true ∧ start c ≤ i ∧ i < stop c

/-- No two cells next to each other are in the class. -/
def Scattered (p : β → Bool) (l : List β) : Prop := l.IsChain fun c d => ¬(p c = true ∧ p d = true)

/-- A range of covered positions is in one cell. -/
theorem exists_cell_of_covered (hlt : ∀ c, start c < stop c) (ht : Tiles start stop a l e) (hsep : Scattered p l)
    (hx : a ≤ x) (hxy : x < y) (hcov : ∀ i, x ≤ i → i < y → Covered start stop p l i) :
    ∃ c ∈ l, p c = true ∧ start c ≤ x ∧ y ≤ stop c := by
  have hle (c : β) : start c ≤ stop c := Nat.le_of_lt (hlt c)
  induction l generalizing a with
  | nil =>
    obtain ⟨c, hc, -⟩ := hcov x (Nat.le_refl _) hxy
    exact absurd hc List.not_mem_nil
  | cons b l ih =>
    obtain ⟨hb, hl⟩ := ht
    have hafter (c : β) (hc : c ∈ l) : stop b ≤ start c := (hl.bounds hle hc).1
    by_cases hxb : stop b ≤ x
    · obtain ⟨c, hc, hrest⟩ := ih hl hsep.of_cons hxb fun i h₁ h₂ => by
        obtain ⟨c, hc, hp, hstart, hstop⟩ := hcov i h₁ h₂
        rcases List.mem_cons.1 hc with rfl | hc
        · omega
        · exact ⟨c, hc, hp, hstart, hstop⟩
      exact ⟨c, List.mem_cons_of_mem _ hc, hrest⟩
    · obtain ⟨c, hc, hp, hstart, hstop⟩ := hcov x (Nat.le_refl _) hxy
      have hpb : p b = true := by
        rcases List.mem_cons.1 hc with rfl | hc
        · exact hp
        · have := hafter c hc
          omega
      refine ⟨b, List.mem_cons_self, hpb, by omega, ?_⟩
      by_contra hy
      -- the position after the cell would be in the next one
      obtain ⟨d, hd, hpd, hdstart, hdstop⟩ := hcov (stop b) (by omega) (by omega)
      rcases List.mem_cons.1 hd with rfl | hd
      · omega
      cases l with
      | nil => exact absurd hd List.not_mem_nil
      | cons c l =>
        have hc := hl.1
        rcases List.mem_cons.1 hd with rfl | hd
        · exact (List.isChain_cons_cons.1 hsep).1 ⟨hpb, hpd⟩
        · have := (hl.2.bounds hle hd).1
          have := hlt c
          omega

/-- The gaps of the covered positions are the cells. -/
theorem gap_covered_iff (hlt : ∀ c, start c < stop c) (ht : Tiles start stop a l e) (hsep : Scattered p l) :
    IsGap (Covered start stop p l) x n ↔ ∃ c ∈ l, p c = true ∧ start c = x ∧ stop c = x + n := by
  have hle (c : β) : start c ≤ stop c := Nat.le_of_lt (hlt c)
  have hcell {c : β} {i : Nat} (hc : c ∈ l) (hp : p c = true) (h₁ : start c ≤ i) (h₂ : i < stop c) :
      Covered start stop p l i := ⟨c, hc, hp, h₁, h₂⟩
  have hlow {i : Nat} (hi : Covered start stop p l i) : a ≤ i := by
    obtain ⟨c, hc, -, h, -⟩ := hi
    exact Nat.le_trans (ht.bounds hle hc).1 h
  constructor
  · intro hg
    have hpos := hg.pos
    have hax := hlow (hg.within x (Nat.le_refl _) (by omega))
    obtain ⟨c, hc, hp, hstart, hstop⟩ := exists_cell_of_covered hlt ht hsep hax (by omega) hg.within
    refine ⟨c, hc, hp, ?_, ?_⟩
    · by_contra hne
      exact hg.left (x - 1) (by omega) (hcell hc hp (by omega) (by omega))
    · by_contra hne
      exact hg.right (hcell hc hp (by omega) (by omega))
  · rintro ⟨c, hc, hp, rfl, hstop⟩
    have hc' := hlt c
    have hwithin : Within (Covered start stop p l) (start c) n := fun i h₁ h₂ =>
      hcell hc hp h₁ (by omega)
    -- a longer range would be in one cell, which could only be the same one
    have hmost {x y : Nat} (hx : x ≤ start c) (hy : stop c ≤ y)
        (hcov : ∀ i, x ≤ i → i < y → Covered start stop p l i) : start c = x ∧ stop c = y := by
      obtain ⟨d, hd, -, hdstart, hdstop⟩ := exists_cell_of_covered hlt ht hsep
        (hlow (hcov x (Nat.le_refl _) (by omega))) (by omega) hcov
      by_cases hcd : c = d
      · subst hcd
        omega
      · have := hlt d
        rcases ht.disjoint hle hc hd hcd with hbefore | hafter
        · omega
        · omega
    refine ⟨by omega, hwithin, fun i hi hF => ?_, fun hF => ?_⟩
    · have := (hmost (x := i) (by omega) (Nat.le_refl _) fun j h₁ h₂ => by
        by_cases hj : j = i
        · exact hj ▸ hF
        · exact hcell hc hp (by omega) h₂).1
      omega
    · have := (hmost (y := stop c + 1) (Nat.le_refl _) (by omega) fun j h₁ h₂ => by
        by_cases hj : j = start c + n
        · exact hj ▸ hF
        · exact hcell hc hp h₁ (by omega)).2
      omega

end Gaps
