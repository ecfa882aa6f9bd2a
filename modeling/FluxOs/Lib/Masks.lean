import Mathlib.Data.List.Basic
import Mathlib.Logic.Function.Basic

/-!
# Masks

A 64-bit word as a set of bits.  Several parties hold a mask each; what they hold together is the union of
their masks.
-/

namespace Masks

variable {a b c : UInt64} {n : Nat}

/-- The word has bit `n`. -/
def hasBit (c : UInt64) (n : Nat) : Bool := c.toBitVec.getLsbD n

@[simp] theorem hasBit_zero : hasBit 0 n = false := BitVec.getLsbD_zero

@[simp] theorem hasBit_and : hasBit (a &&& b) n = (hasBit a n && hasBit b n) := BitVec.getLsbD_and

@[simp] theorem hasBit_or : hasBit (a ||| b) n = (hasBit a n || hasBit b n) := BitVec.getLsbD_or

/-- The bits of `a` that `b` does not have. -/
@[simp] theorem hasBit_and_not : hasBit (a &&& ~~~b) n = (hasBit a n && !hasBit b n) := by
  by_cases hn : n < 64
  · rw [hasBit_and]
    simp [hasBit, hn]
  · have hzero : hasBit a n = false := BitVec.getLsbD_of_ge _ _ (Nat.le_of_not_lt hn)
    simp only [hasBit_and, hzero, Bool.false_and]

theorem hasBit_eq_testBit : hasBit c n = c.toNat.testBit n := BitVec.testBit_toNat _

theorem hasBit_of_ge (hn : 64 ≤ n) : hasBit c n = false := BitVec.getLsbD_of_ge _ _ hn

/-- The host takes the amount of a shift modulo 64. -/
theorem hasBit_shiftLeft : hasBit (a <<< b) n =
    (decide (n < 64 ∧ b.toNat % 64 ≤ n) && hasBit a (n - b.toNat % 64)) := by
  rw [hasBit_eq_testBit, hasBit_eq_testBit, UInt64.toNat_shiftLeft, Nat.testBit_mod_two_pow, Nat.testBit_shiftLeft]
  by_cases hn : n < 64 <;> simp [hn]

theorem hasBit_shiftRight : hasBit (a >>> b) n = hasBit a (b.toNat % 64 + n) := by
  rw [hasBit_eq_testBit, hasBit_eq_testBit, UInt64.toNat_shiftRight, Nat.testBit_shiftRight]

theorem eq_of_hasBit (h : ∀ n, hasBit a n = hasBit b n) : a = b := by
  refine UInt64.toBitVec_inj.1 (BitVec.eq_of_getLsbD_eq fun n _ => ?_)
  exact h n

/-! ## Inclusion -/

/-- Every bit of `a` is one of `b`. -/
def Within (a b : UInt64) : Prop := a &&& b = a

instance : Decidable (Within a b) := inferInstanceAs (Decidable (_ = _))

theorem within_iff : Within a b ↔ ∀ n, hasBit a n = true → hasBit b n = true := by
  constructor
  · intro h n hn
    rw [← h, hasBit_and, Bool.and_eq_true] at hn
    exact hn.2
  · intro h
    refine eq_of_hasBit fun n => ?_
    rw [hasBit_and]
    cases ha : hasBit a n with
    | false => rfl
    | true => rw [h n ha, Bool.true_and]

theorem Within.refl : Within a a := UInt64.and_self

theorem Within.trans (h : Within a b) (h' : Within b c) : Within a c :=
  within_iff.2 fun n hn => within_iff.1 h' n (within_iff.1 h n hn)

theorem within_and_not : Within (a &&& ~~~b) a :=
  within_iff.2 fun n hn => by
    rw [hasBit_and_not, Bool.and_eq_true] at hn
    exact hn.1

/-! ## Unions -/

section Union

variable {ι : Type} {l : List ι} {held held' : ι → UInt64}

/-- What the members of a list hold together. -/
def union (l : List ι) (held : ι → UInt64) : UInt64 := l.foldr (fun i c => held i ||| c) 0

theorem hasBit_union : hasBit (union l held) n = true ↔ ∃ i ∈ l, hasBit (held i) n = true := by
  induction l with
  | nil => simp [union]
  | cons i l ih =>
    have hcons : union (i :: l) held = held i ||| union l held := rfl
    rw [hcons, hasBit_or, Bool.or_eq_true, ih]
    simp

/-- The union does not grow if every bit that is held was held before, by anyone. -/
theorem union_within {l' : List ι}
    (h : ∀ i ∈ l', ∀ n, hasBit (held' i) n = true → ∃ j ∈ l, hasBit (held j) n = true) :
    Within (union l' held') (union l held) := by
  refine within_iff.2 fun n hn => ?_
  obtain ⟨i, hi, hbit⟩ := hasBit_union.1 hn
  exact hasBit_union.2 (h i hi n hbit)

variable [DecidableEq ι] {i j k : ι}

/-- Bits are taken away from `i` and given to `j`. -/
def moved (held : ι → UInt64) (i j : ι) (cap : UInt64) : ι → UInt64 :=
  let left := Function.update held i (held i &&& ~~~cap)
  Function.update left j (left j ||| cap)

theorem moved_source (hne : i ≠ j) {cap : UInt64} : moved held i j cap i = held i &&& ~~~cap := by
  rw [moved, Function.update_of_ne hne, Function.update_self]

theorem moved_target (hne : i ≠ j) {cap : UInt64} : moved held i j cap j = held j ||| cap := by
  rw [moved, Function.update_self, Function.update_of_ne hne.symm]

theorem moved_of_ne {cap : UInt64} (hi : k ≠ i) (hj : k ≠ j) : moved held i j cap k = held k := by
  rw [moved, Function.update_of_ne hj, Function.update_of_ne hi]

/-- A bit that someone holds after a move was held before, by the same one or, if it is moved, by `i`. -/
theorem hasBit_of_moved {cap : UInt64} (hcap : Within cap (held i)) (hne : i ≠ j)
    (h : hasBit (moved held i j cap k) n = true) :
    hasBit (held k) n = true ∨ hasBit cap n = true ∧ hasBit (held i) n = true := by
  by_cases hj : k = j
  · subst hj
    rw [moved_target hne, hasBit_or, Bool.or_eq_true] at h
    rcases h with h | h
    · exact .inl h
    · exact .inr ⟨h, within_iff.1 hcap n h⟩
  left
  by_cases hi : k = i
  · subst hi
    rw [moved_source hne] at h
    exact within_iff.1 within_and_not n h
  · rwa [moved_of_ne hi hj] at h

/-- A move between two members does not change what is held together. -/
theorem union_moved_within {cap : UInt64} (hcap : Within cap (held i)) (hne : i ≠ j) (hi : i ∈ l) :
    Within (union l (moved held i j cap)) (union l held) := by
  refine union_within fun k hk n hn => ?_
  rcases hasBit_of_moved hcap hne hn with h | ⟨-, h⟩
  · exact ⟨k, hk, h⟩
  · exact ⟨i, hi, h⟩

/-- Taking bits away does not make the union larger. -/
theorem union_update_within {cap : UInt64} :
    Within (union l (Function.update held i (held i &&& ~~~cap))) (union l held) := by
  refine union_within fun k hk n hn => ⟨k, hk, ?_⟩
  by_cases hi : k = i
  · subst hi
    rw [Function.update_self] at hn
    exact within_iff.1 within_and_not n hn
  · rwa [Function.update_of_ne hi] at hn

end Union

end Masks
