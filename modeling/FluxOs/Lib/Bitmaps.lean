import Mathlib.Data.Nat.Bitwise
import Mathlib.Logic.Function.Basic

/-!
# Sets of numbers in bytes

One bit a number, eight in each byte, the lowest first.
-/

namespace Bitmaps

def set (m : Nat → UInt8) (i : Nat) : Nat → UInt8 :=
  Function.update m (i / 8) (m (i / 8) ||| (1 <<< UInt8.ofNat (i % 8)))

def clear (m : Nat → UInt8) (i : Nat) : Nat → UInt8 :=
  Function.update m (i / 8) (m (i / 8) &&& ~~~(1 <<< UInt8.ofNat (i % 8)))

def test (m : Nat → UInt8) (i : Nat) : Bool := (m (i / 8) >>> UInt8.ofNat (i % 8)) &&& 1 ≠ 0

variable {m : Nat → UInt8} {i j k : Nat} {b : UInt8}

/-! ## Bits of a byte -/

theorem bit_eq (hk : k < 8) : decide ((b >>> UInt8.ofNat k) &&& 1 ≠ 0) = b.toNat.testBit k := by
  have hmod : (UInt8.ofNat k).toNat % 8 = k := by
    rw [UInt8.toNat_ofNat']
    omega
  have hnat : ((b >>> UInt8.ofNat k) &&& 1).toNat = b.toNat >>> k % 2 := by
    rw [UInt8.toNat_and, UInt8.toNat_shiftRight, hmod]
    exact Nat.and_one_is_mod _
  rw [Nat.testBit, Nat.one_and_eq_mod_two, ← hnat]
  apply Bool.eq_iff_iff.2
  rw [decide_eq_true_eq, bne_iff_ne]
  exact not_congr UInt8.toNat_inj.symm

theorem toNat_one_shiftLeft (hk : k < 8) : (1 <<< UInt8.ofNat k : UInt8).toNat = 2 ^ k := by
  have hmod : (UInt8.ofNat k).toNat % 8 = k := by
    rw [UInt8.toNat_ofNat']
    omega
  have hlt : 2 ^ k < 2 ^ 8 := Nat.pow_lt_pow_right (by decide) hk
  rw [UInt8.toNat_shiftLeft, hmod, Nat.shiftLeft_eq]
  show 1 * 2 ^ k % 2 ^ 8 = _
  rw [Nat.one_mul, Nat.mod_eq_of_lt hlt]

theorem testBit_or (hk : k < 8) : (b ||| (1 <<< UInt8.ofNat k)).toNat.testBit j =
    (decide (j = k) || b.toNat.testBit j) := by
  rw [UInt8.toNat_or, Nat.testBit_or, toNat_one_shiftLeft hk, Nat.testBit_two_pow, Bool.or_comm]
  simp only [eq_comm]

theorem testBit_andNot (hk : k < 8) (hj : j < 8) :
    (b &&& ~~~(1 <<< UInt8.ofNat k)).toNat.testBit j = (!decide (j = k) && b.toNat.testBit j) := by
  have hnot : (~~~(1 <<< UInt8.ofNat k : UInt8)).toNat = 2 ^ 8 - (2 ^ k + 1) := by
    rw [UInt8.toNat_not, toNat_one_shiftLeft hk, Nat.add_comm, ← Nat.sub_sub]
    rfl
  have hlt : 2 ^ k < 2 ^ 8 := Nat.pow_lt_pow_right (by decide) hk
  rw [UInt8.toNat_and, Nat.testBit_and, hnot, Nat.testBit_two_pow_sub_succ hlt, Nat.testBit_two_pow, Bool.and_comm]
  simp only [hj, decide_true, Bool.true_and, eq_comm]

/-! ## Sets -/

theorem test_eq : test m i = (m (i / 8)).toNat.testBit (i % 8) := bit_eq (Nat.mod_lt i (by decide))

@[simp]
theorem test_zero : test (fun _ => 0) i = false := by
  rw [test_eq]
  exact Nat.zero_testBit _

theorem eq_of_div_of_mod (hdiv : j / 8 = i / 8) (hmod : j % 8 = i % 8) : j = i := by omega

@[simp]
theorem test_set : test (set m i) j = (decide (j = i) || test m j) := by
  rw [test_eq, test_eq, set]
  by_cases hdiv : j / 8 = i / 8
  · have heq : (j % 8 = i % 8) ↔ j = i := ⟨eq_of_div_of_mod hdiv, fun h => congrArg (· % 8) h⟩
    rw [hdiv, Function.update_self, testBit_or (Nat.mod_lt i (by decide)), decide_eq_decide.2 heq]
  · have hne : j ≠ i := fun h => hdiv (congrArg (· / 8) h)
    rw [Function.update_of_ne hdiv, decide_eq_false hne, Bool.false_or]

@[simp]
theorem test_clear : test (clear m i) j = (!decide (j = i) && test m j) := by
  rw [test_eq, test_eq, clear]
  by_cases hdiv : j / 8 = i / 8
  · have heq : (j % 8 = i % 8) ↔ j = i := ⟨eq_of_div_of_mod hdiv, fun h => congrArg (· % 8) h⟩
    rw [hdiv, Function.update_self, testBit_andNot (Nat.mod_lt i (by decide)) (Nat.mod_lt j (by decide)),
      decide_eq_decide.2 heq]
  · have hne : j ≠ i := fun h => hdiv (congrArg (· / 8) h)
    rw [Function.update_of_ne hdiv, decide_eq_false hne, Bool.not_false, Bool.true_and]

theorem test_foldl_set (l : List Nat) : test (l.foldl set m) j = (decide (j ∈ l) || test m j) := by
  induction l generalizing m with
  | nil => simp
  | cons i l ih =>
    rw [List.foldl_cons, ih, test_set]
    simp only [List.mem_cons, Bool.decide_or, ← Bool.or_assoc]
    rw [Bool.or_comm (decide (j ∈ l))]

theorem test_foldl_clear (l : List Nat) : test (l.foldl clear m) j = (!decide (j ∈ l) && test m j) := by
  induction l generalizing m with
  | nil => simp
  | cons i l ih =>
    rw [List.foldl_cons, ih, test_clear]
    simp only [List.mem_cons, Bool.decide_or, Bool.not_or, ← Bool.and_assoc]
    rw [Bool.and_comm (!decide (j ∈ l))]

end Bitmaps
