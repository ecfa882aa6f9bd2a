import Mathlib.Algebra.GroupWithZero.Nat
import Mathlib.Data.List.Basic

/-!
# Tilings of an interval

`Tiles start stop a l e`: the cells of `l`, each from `start` to `stop`, cover the interval from `a` to
`e` one after the other, without gap or overlap.
-/

namespace Tilings

variable {β : Type} (start stop : β → Nat)

/-- The cells cover the interval from `a` to `e`. -/
def Tiles : Nat → List β → Nat → Prop
  | a, [], e => a = e
  | a, b :: l, e => start b = a ∧ Tiles (stop b) l e

variable {start stop} {a e : Nat} {k l : List β} {b : β}

theorem tiles_append : Tiles start stop a (k ++ l) e ↔
    ∃ m, Tiles start stop a k m ∧ Tiles start stop m l e := by
  induction k generalizing a with
  | nil => simp [Tiles]
  | cons b k ih =>
    rw [List.cons_append, Tiles, ih]
    constructor
    · rintro ⟨hb, m, hk, hl⟩
      exact ⟨m, ⟨hb, hk⟩, hl⟩
    · rintro ⟨m, ⟨hb, hk⟩, hl⟩
      exact ⟨hb, m, hk, hl⟩

/-- Cells that cover the same interval may replace each other. -/
theorem Tiles.replace {m m' : List β} (h : Tiles start stop a (k ++ m ++ l) e)
    (hm : ∀ x y, Tiles start stop x m y → Tiles start stop x m' y) :
    Tiles start stop a (k ++ m' ++ l) e := by
  obtain ⟨y, h, hl⟩ := tiles_append.1 h
  obtain ⟨x, hk, hxy⟩ := tiles_append.1 h
  exact tiles_append.2 ⟨y, tiles_append.2 ⟨x, hk, hm x y hxy⟩, hl⟩

/-- With cells of at least `c` bytes there is room for all of them. -/
theorem Tiles.length_le {c : Nat} (hc : ∀ b, start b + c ≤ stop b) (h : Tiles start stop a l e) :
    a + c * l.length ≤ e := by
  induction l generalizing a with
  | nil =>
    rw [List.length_nil, Nat.mul_zero]
    exact Nat.le_of_eq h
  | cons b l ih =>
    have := hc b
    have := ih h.2
    rw [List.length_cons, Nat.mul_succ]
    have := h.1
    omega

theorem Tiles.le (hle : ∀ b, start b ≤ stop b) (h : Tiles start stop a l e) : a ≤ e := by
  have := h.length_le (c := 0) hle
  omega

/-- Some of the cells together are not larger than the interval. -/
theorem Tiles.sum_filter_le (p : β → Bool) (hle : ∀ b, start b ≤ stop b) (h : Tiles start stop a l e) :
    a + ((l.filter p).map fun b => stop b - start b).sum ≤ e := by
  induction l generalizing a with
  | nil => simpa using Nat.le_of_eq h
  | cons b l ih =>
    have hb := hle b
    have hstart := h.1
    have hrest := ih h.2
    cases hp : p b with
    | true =>
      rw [List.filter_cons_of_pos hp, List.map_cons, List.sum_cons]
      omega
    | false =>
      rw [List.filter_cons_of_neg (by simp [hp])]
      omega

/-- Where the last cells start is where the ones before them end. -/
theorem Tiles.left_unique {a' : Nat} (h : Tiles start stop a l e) (h' : Tiles start stop a' l e) : a = a' := by
  cases l with
  | nil => exact Eq.trans h (Eq.symm h')
  | cons b l => exact h.1.symm.trans h'.1

/-- Every cell lies in the interval. -/
theorem Tiles.bounds (hle : ∀ b, start b ≤ stop b) (h : Tiles start stop a l e) (hb : b ∈ l) :
    a ≤ start b ∧ stop b ≤ e := by
  obtain ⟨k, l, rfl⟩ := List.append_of_mem hb
  obtain ⟨m, hk, hm, hl⟩ := tiles_append.1 h
  exact ⟨hm ▸ hk.le hle, hl.le hle⟩

/-- Every position of the interval is in a cell. -/
theorem Tiles.exists_cell {i : Nat} (h : Tiles start stop a l e) (ha : a ≤ i) (he : i < e) :
    ∃ b ∈ l, start b ≤ i ∧ i < stop b := by
  induction l generalizing a with
  | nil =>
    have : a = e := h
    omega
  | cons b l ih =>
    obtain ⟨hb, hl⟩ := h
    by_cases hi : i < stop b
    · exact ⟨b, List.mem_cons_self, by omega, hi⟩
    · obtain ⟨c, hc, hic⟩ := ih hl (by omega)
      exact ⟨c, List.mem_cons_of_mem _ hc, hic⟩

/-- Cells further right start where those further left have ended. -/
theorem Tiles.pairwise (hle : ∀ b, start b ≤ stop b) (h : Tiles start stop a l e) :
    l.Pairwise fun b c => stop b ≤ start c := by
  induction l generalizing a with
  | nil => exact List.Pairwise.nil
  | cons b l ih => exact List.pairwise_cons.2 ⟨fun c hc => (h.2.bounds hle hc).1, ih h.2⟩

/-- Two cells do not overlap. -/
theorem Tiles.disjoint {c : β} (hle : ∀ b, start b ≤ stop b) (h : Tiles start stop a l e) (hb : b ∈ l)
    (hc : c ∈ l) (hbc : b ≠ c) : stop b ≤ start c ∨ stop c ≤ start b := by
  have hp := h.pairwise hle
  refine List.Pairwise.forall_of_forall_of_flip (R := fun b c => b ≠ c → stop b ≤ start c ∨ stop c ≤ start b)
    (fun _ _ hn => absurd rfl hn) (hp.imp fun hlt _ => .inl hlt) (hp.imp fun hlt _ => .inr hlt) hb hc hbc

end Tilings
