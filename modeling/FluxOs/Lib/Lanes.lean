import Mathlib.Algebra.Order.Ring.Nat
import Mathlib.Data.List.Basic
import Mathlib.Tactic.SplitIfs

/-!
# Lanes of bits

A number as a list of lanes of `w` bits, the lowest first.  Masks and shifts that stay inside the lanes act on
each lane by itself, and so do additions and subtractions without carries.
-/

namespace Lanes

variable {w k m a b p q n : Nat} {L : List Nat} {f g : Nat → Nat}

/-- The number with the given lanes. -/
def pack (w : Nat) (L : List Nat) : Nat := L.foldr (fun a p => a + 2 ^ w * p) 0

/-- All lanes are below `2 ^ w`. -/
def Fits (w : Nat) (L : List Nat) : Prop := ∀ a ∈ L, a < 2 ^ w

theorem pack_cons : pack w (a :: L) = a + 2 ^ w * pack w L := rfl

theorem pack_lt (hL : Fits w L) : pack w L < 2 ^ (L.length * w) := by
  induction L with
  | nil => simp [pack]
  | cons a L ih =>
    have ha := hL a List.mem_cons_self
    have hrest := ih fun b hb => hL b (List.mem_cons_of_mem a hb)
    rw [pack_cons, List.length_cons, Nat.succ_mul, Nat.add_comm (L.length * w), Nat.pow_add]
    calc a + 2 ^ w * pack w L
      _ < 2 ^ w * (pack w L + 1) := by
        rw [Nat.mul_add_one]
        omega
      _ ≤ 2 ^ w * 2 ^ (L.length * w) := Nat.mul_le_mul_left _ hrest

theorem testBit_lane (ha : a < 2 ^ w) (n : Nat) :
    (a + 2 ^ w * p).testBit n = if n < w then a.testBit n else p.testBit (n - w) := by
  rw [Nat.add_comm]
  exact Nat.testBit_two_pow_mul_add p ha n

/-- A mask acts on each lane. -/
theorem and_lane (ha : a < 2 ^ w) (hb : b < 2 ^ w) :
    (a + 2 ^ w * p) &&& (b + 2 ^ w * q) = (a &&& b) + 2 ^ w * (p &&& q) := by
  have hab : a &&& b < 2 ^ w := Nat.lt_of_le_of_lt Nat.and_le_left ha
  apply Nat.eq_of_testBit_eq
  intro n
  rw [Nat.testBit_and, testBit_lane ha, testBit_lane hb, testBit_lane hab]
  split_ifs
  · rw [Nat.testBit_and]
  · rw [Nat.testBit_and]

/-- A shift inside the lanes: the mask takes away what comes from the next lane. -/
theorem shift_and_lane (ha : a < 2 ^ w) (hm : m < 2 ^ (w - k)) :
    ((a + 2 ^ w * p) >>> k) &&& (m + 2 ^ w * q) = ((a >>> k) &&& m) + 2 ^ w * ((p >>> k) &&& q) := by
  have hmw : m < 2 ^ w := Nat.lt_of_lt_of_le hm (Nat.pow_le_pow_right (by decide) (Nat.sub_le w k))
  have hand : (a >>> k) &&& m < 2 ^ w := Nat.lt_of_le_of_lt Nat.and_le_right hmw
  apply Nat.eq_of_testBit_eq
  intro n
  rw [Nat.testBit_and, Nat.testBit_shiftRight, testBit_lane ha, testBit_lane hmw, testBit_lane hand]
  by_cases hn : n < w
  · rw [if_pos hn, if_pos hn, Nat.testBit_and, Nat.testBit_shiftRight]
    by_cases hk : k + n < w
    · rw [if_pos hk]
    · have hclear : m.testBit n = false := by
        apply Nat.testBit_lt_two_pow
        exact Nat.lt_of_lt_of_le hm (Nat.pow_le_pow_right (by decide) (by omega))
      rw [hclear, Bool.and_false, Bool.and_false]
  · rw [if_neg hn, if_neg hn, if_neg (by omega), Nat.testBit_and, Nat.testBit_shiftRight]
    congr 2
    omega

theorem pack_and_replicate (hL : Fits w L) (hm : m < 2 ^ w) :
    pack w L &&& pack w (List.replicate L.length m) = pack w (L.map (· &&& m)) := by
  induction L with
  | nil => simp [pack]
  | cons a L ih =>
    rw [List.length_cons, List.replicate_succ, pack_cons, pack_cons, and_lane (hL a List.mem_cons_self) hm,
      ih fun b hb => hL b (List.mem_cons_of_mem a hb)]
    rfl

theorem pack_shift_and_replicate (hL : Fits w L) (hm : m < 2 ^ (w - k)) :
    (pack w L >>> k) &&& pack w (List.replicate L.length m) = pack w (L.map fun a => (a >>> k) &&& m) := by
  induction L with
  | nil => simp [pack]
  | cons a L ih =>
    rw [List.length_cons, List.replicate_succ, pack_cons, pack_cons, shift_and_lane (hL a List.mem_cons_self) hm,
      ih fun b hb => hL b (List.mem_cons_of_mem a hb)]
    rfl

theorem pack_map_add : pack w (L.map f) + pack w (L.map g) = pack w (L.map fun a => f a + g a) := by
  induction L with
  | nil => rfl
  | cons a L ih =>
    simp only [List.map_cons, pack_cons]
    rw [← ih, Nat.mul_add]
    omega

/-- A subtraction without borrows. -/
theorem pack_map_sub (h : ∀ a ∈ L, g a ≤ f a) :
    pack w (L.map f) - pack w (L.map g) = pack w (L.map fun a => f a - g a) := by
  have hsum : pack w (L.map fun a => f a - g a) + pack w (L.map g) = pack w (L.map f) := by
    rw [pack_map_add]
    congr 1
    refine List.map_congr_left fun a ha => ?_
    exact Nat.sub_add_cancel (h a ha)
  omega

/-! ## Counting bits -/

/-- The number of set bits among the lowest `n`. -/
def bitCount (n x : Nat) : Nat := (List.range n).countP x.testBit

theorem bitCount_le (n x : Nat) : bitCount n x ≤ n := by
  have hle := List.countP_le_length (p := x.testBit) (l := List.range n)
  rwa [List.length_range] at hle

theorem bitCount_lane (ha : a < 2 ^ w) : bitCount (w + n) (a + 2 ^ w * p) = bitCount w a + bitCount n p := by
  unfold bitCount
  rw [List.range_add, List.countP_append, List.countP_map]
  congr 1
  · refine List.countP_congr fun k hk => ?_
    rw [testBit_lane ha, if_pos (List.mem_range.1 hk)]
  · refine List.countP_congr fun k _ => ?_
    rw [Function.comp_apply, testBit_lane ha, if_neg (by omega), Nat.add_sub_cancel_left]

theorem bitCount_pack (hL : Fits w L) : bitCount (L.length * w) (pack w L) = (L.map (bitCount w)).sum := by
  induction L with
  | nil => simp [bitCount]
  | cons a L ih =>
    rw [List.length_cons, Nat.succ_mul, Nat.add_comm, pack_cons, bitCount_lane (hL a List.mem_cons_self),
      ih fun b hb => hL b (List.mem_cons_of_mem a hb), List.map_cons, List.sum_cons]

end Lanes
